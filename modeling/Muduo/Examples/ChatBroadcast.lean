import Muduo.Examples.ChatDistribution

namespace Muduo.Examples.ChatServerHp
open Muduo.Lib Muduo.Net

variable {s : ChatServerHp} {l : LoopPtr} {conn : ConnPtr} {client : Client} {loop : Loop}
  {message : Message} {cb : Functor}

/-- Every client but `conn` is queued once while it is to be established. -/
def EstablishingBut (s : ChatServerHp) (conn : ConnPtr) : Prop :=
  ∀ l k, (s.loop l).pendingFunctors.count (.connectEstablished k) =
    if k ≠ conn ∧ s.clients k = some ⟨l, .kConnecting⟩ then 1 else 0

theorem Establishing.setLoop (h : s.Establishing) (l : LoopPtr) (loop : Loop)
    (hp : ∀ k, loop.pendingFunctors.count (.connectEstablished k) =
      (s.loop l).pendingFunctors.count (.connectEstablished k)) : (s.setLoop l loop).Establishing := by
  intro m k
  have hkept := update_kept (fun loop => loop.pendingFunctors.count (.connectEstablished k)) s.loop l
    loop (hp k) m
  exact hkept.trans (h m k)

theorem Establishing.queueInLoop (h : s.Establishing) (l : LoopPtr)
    (hcb : ∀ k, cb ≠ .connectEstablished k) : (s.queueInLoop l cb).Establishing := by
  refine h.setLoop l _ fun k => ?_
  rw [List.count_append, List.count_singleton, if_neg (by simpa using hcb k)]
  rfl

theorem Establishing.setClient (h : s.Establishing) (hc : s.clients conn = some client)
    (hold : client.state ≠ .kConnecting) (state : StateE) (hnew : state ≠ .kConnecting) :
    (s.setClient conn { client with state }).Establishing := by
  intro m k
  refine (h m k).trans (if_congr ?_ rfl rfl)
  change _ ↔ Function.update s.clients conn _ k = _
  by_cases hk : k = conn
  · rw [hk, Function.update_self, hc]
    simp only [Option.some.injEq, Client.mk.injEq, hnew, and_false, iff_false]
    rintro rfl
    exact hold rfl
  · rw [Function.update_of_ne hk]

theorem pending_onConnection (s : ChatServerHp) (conn : ConnPtr) (client : Client) (m : LoopPtr) :
    ((s.onConnection conn client).loop m).pendingFunctors = (s.loop m).pendingFunctors := by
  unfold onConnection
  dsimp only
  split
  · exact update_kept Loop.pendingFunctors s.loop client.loop _ (by rfl) m
  · exact update_kept Loop.pendingFunctors s.loop client.loop _ (by rfl) m

theorem clients_onConnection (s : ChatServerHp) (conn : ConnPtr) (client : Client) :
    (s.onConnection conn client).clients = s.clients := by
  unfold onConnection
  dsimp only
  split
  · rfl
  · rfl

theorem Establishing.onConnection (h : s.Establishing) (conn : ConnPtr) (client : Client) :
    (s.onConnection conn client).Establishing := by
  intro m k
  rw [pending_onConnection, clients_onConnection]
  exact h m k

/-- A connection that is not queued any more is established. -/
theorem connectEstablished_sound (hr : s.Recorded) (hf : s.fanOut.Flow Message.source)
    (hb : s.EstablishingBut conn) (hc : s.clients conn = some client)
    (hst : client.state = .kConnecting) :
    Yields Sound (fun _ => False) (s.connectEstablished conn client) := by
  rw [connectEstablished, check_pos hst, ok_bind]
  refine ⟨hr.comesUp hc hst, ?_, fun m k => ?_⟩
  · rw [fanOut_onConnection]
    exact hf
  · rw [pending_onConnection, clients_onConnection]
    refine (hb m k).trans (if_congr ?_ rfl rfl)
    change _ ↔ Function.update s.clients conn _ k = _
    by_cases hk : k = conn
    · rw [hk, Function.update_self]
      simp
    · rw [Function.update_of_ne hk]
      simp only [ne_eq, hk, not_false_eq_true, true_and]

theorem getNextLoop_mem (p : EventLoopThreadPool) : p.getNextLoop.1 ∈ p.getAllLoops := by
  unfold EventLoopThreadPool.getNextLoop EventLoopThreadPool.getAllLoops
  split
  · exact List.mem_singleton_self _
  · exact List.get_mem _ _

theorem getNextLoop_loops (p : EventLoopThreadPool) :
    p.getNextLoop.2.getAllLoops = p.getAllLoops := by
  unfold EventLoopThreadPool.getNextLoop
  split
  · rfl
  · rfl

/-- A client that was accepted and is not queued yet. -/
theorem Sound.accepted (h : s.Sound) (hc : s.clients conn = none) {threadPool : EventLoopThreadPool}
    (hp : threadPool.getAllLoops = s.threadPool.getAllLoops) {ioLoop : LoopPtr}
    (hl : ioLoop ∈ s.threadPool.getAllLoops) :
    Recorded ({ s with threadPool }.setClient conn ⟨ioLoop, .kConnecting⟩) ∧
      EstablishingBut ({ s with threadPool }.setClient conn ⟨ioLoop, .kConnecting⟩) conn := by
  have hstands : ∀ k l, ∀ p : StateE → Prop, (k = conn → ¬p .kConnecting) →
      (s.Stands k l p ↔
        ({ s with threadPool }.setClient conn ⟨ioLoop, .kConnecting⟩).Stands k l p) := by
    intro k l p hp
    rw [stands_setClient]
    by_cases hk : k = conn
    · rw [if_pos hk, hk]
      exact iff_of_false (stands_none hc p) fun hand => hp hk hand.2
    · rw [if_neg hk]
      exact Iff.rfl
  refine ⟨⟨h.serials, fun m hm => ?_, fun k hk => h.pool k (hp ▸ hk),
    h.placed_set (h.pool ioLoop hl), fun k conn' => ?_, fun k conn' => ?_, h.members, h.receivers⟩,
    fun m k => ?_⟩
  · have hsender := h.senders m hm
    refine (hstands _ _ _ fun hk => ?_).mp hsender
    exact absurd (hk ▸ hsender) (stands_none hc _)
  · exact (h.ups k conn').trans (hstands conn' k _ fun _ hne => hne rfl)
  · exact (h.downs k conn').trans (hstands conn' k _ fun _ he => nomatch he)
  · refine (h.establishing m k).trans (if_congr ?_ rfl rfl)
    change _ ↔ _ ∧ Function.update s.clients conn _ k = _
    by_cases hk : k = conn
    · rw [hk, hc]
      simp
    · rw [Function.update_of_ne hk]
      simp only [ne_eq, hk, not_false_eq_true, true_and]

theorem EstablishingBut.queued (h : s.EstablishingBut conn)
    (hc : s.clients conn = some ⟨l, .kConnecting⟩) :
    (s.queueInLoop l (.connectEstablished conn)).Establishing := by
  intro m k
  have hm := h m k
  refine Eq.trans ?_ (if_congr (Iff.refl (s.clients k = some ⟨m, .kConnecting⟩)) rfl rfl)
  change (Function.update s.loop l _ m).pendingFunctors.count _ = _
  by_cases hml : m = l
  · rw [hml] at hm ⊢
    rw [Function.update_self, List.count_append, hm, List.count_singleton]
    by_cases hk : k = conn
    · rw [if_neg fun hand => hand.1 hk, if_pos (by simp [hk]), if_pos (by rw [hk, hc])]
    · have hne : ¬(Functor.connectEstablished conn == Functor.connectEstablished k) = true := by
        simpa using Ne.symm hk
      rw [if_neg hne, Nat.add_zero]
      exact if_congr (and_iff_right hk) rfl rfl
  · rw [Function.update_of_ne hml, hm]
    refine if_congr ⟨And.right, fun he => ⟨fun hk => ?_, he⟩⟩ rfl rfl
    rw [hk, hc] at he
    cases he
    exact hml rfl

theorem Sound.newConnection (h : s.Sound) (hc : s.clients conn = none) :
    Yields Sound (fun _ => False) (s.newConnection conn) := by
  obtain ⟨hr, hb⟩ := h.accepted hc (getNextLoop_loops s.threadPool) (getNextLoop_mem s.threadPool)
  have hnew : ({ s with threadPool := s.threadPool.getNextLoop.2 }.setClient conn
      ⟨s.threadPool.getNextLoop.1, .kConnecting⟩).clients conn =
        some ⟨s.threadPool.getNextLoop.1, .kConnecting⟩ := Function.update_self ..
  unfold ChatServerHp.newConnection
  dsimp only
  split
  · exact connectEstablished_sound hr h.flow hb hnew rfl
  · refine ⟨hr.queueInLoop _ _, ?_, hb.queued hnew⟩
    exact (fanOut_queueInLoop _ (.connectEstablished conn) rfl).symm ▸ h.flow

theorem Sound.queueInLoop (h : s.Sound) (l : LoopPtr) (hm : cb.message = none)
    (hcb : ∀ k, cb ≠ .connectEstablished k) : (s.queueInLoop l cb).Sound :=
  ⟨h.toRecorded.queueInLoop l cb, (fanOut_queueInLoop l cb hm).symm ▸ h.flow,
    h.establishing.queueInLoop l hcb⟩

theorem Sound.removeConnectionInLoop (h : s.Sound) (conn : ConnPtr) (client : Client) :
    (s.removeConnectionInLoop conn client).Sound := h.queueInLoop _ rfl nofun

theorem Sound.removeConnection (h : s.Sound) (conn : ConnPtr) (client : Client) :
    (s.removeConnection conn client).Sound := by
  unfold ChatServerHp.removeConnection
  split
  · exact h.removeConnectionInLoop conn client
  · exact h.queueInLoop _ rfl nofun

theorem Sound.goesDown (h : s.Sound) (hc : s.clients conn = some client)
    (hst : client.state ≠ .kConnecting) :
    ((s.setClient conn { client with state := .kDisconnected }).onConnection conn
      { client with state := .kDisconnected }).Sound := by
  refine ⟨h.toRecorded.goesDown hc hst, ?_, ?_⟩
  · rw [fanOut_onConnection]
    exact h.flow
  · exact (h.establishing.setClient hc hst .kDisconnected nofun).onConnection _ _

theorem up_states (h : client.state = .kConnected ∨ client.state = .kDisconnecting) :
    client.state ≠ .kConnecting ∧ client.state ≠ .kDisconnected := by
  rcases h with h | h <;> simp [h]

theorem Sound.handleClose (h : s.Sound) (hc : s.clients conn = some client)
    (hst : client.state = .kConnected ∨ client.state = .kDisconnecting) :
    Yields Sound (fun _ => False) (s.handleClose conn client) := by
  rw [ChatServerHp.handleClose, check_pos hst, ok_bind]
  exact (h.goesDown hc (up_states hst).1).removeConnection conn _

theorem Sound.forceClose (h : s.Sound) (hc : s.clients conn = some client) :
    (s.forceClose conn client).Sound := by
  unfold ChatServerHp.forceClose
  split
  · rename_i hst
    obtain ⟨hconnecting, hdown⟩ := up_states hst
    have hset : (s.setClient conn { client with state := .kDisconnecting }).Sound :=
      ⟨h.toRecorded.setClient hc (by simp [hconnecting]) (by simp [hdown]), h.flow,
        h.establishing.setClient hc hconnecting .kDisconnecting nofun⟩
    exact hset.queueInLoop _ rfl nofun
  · exact h

theorem Sound.onStringMessage (h : s.Sound) (hc : s.clients conn = some client)
    (hplace : (s.loop client.loop).place = .idle) (text : Bytes) :
    (s.onStringMessage conn client text).Sound := by
  have hfan : (s.onStringMessage conn client text).fanOut = s.fanOut.receive client.loop
      ⟨conn, client.loop, s.received.length, text⟩ := by
    have hset := fanOut_place (s := s) client.loop
      (.distributing ⟨conn, client.loop, s.received.length, text⟩ s.loops.elems)
    exact congrArg (fun f : FanOut LoopPtr Message =>
      { f with received := s.received ++
        [(⟨conn, client.loop, s.received.length, text⟩ : Message)] }) hset
  have hidle : s.fanOut.current client.loop = none := by
    change (s.loop client.loop).place.current = none
    rw [hplace]
    rfl
  refine ⟨⟨?_, fun m hm => ?_, h.pool, h.placed, h.ups, h.downs, fun k conn' => ?_, h.receivers⟩,
    ?_, fun m k => ?_⟩
  · change (s.received ++ [_]).map _ = List.range (s.received ++ [_]).length
    rw [List.map_append, h.serials, List.length_append, List.length_singleton, List.range_succ]
    rfl
  · rcases List.mem_append.mp hm with hold | hnew
    · exact h.senders m hold
    · rw [List.mem_singleton.mp hnew]
      exact ⟨client, hc, rfl, trivial⟩
  · change conn' ∈ (Function.update s.loop client.loop _ k).localConnections ↔ _
    rw [update_kept Loop.localConnections s.loop client.loop _ (by rfl) k]
    exact h.members k conn'
  · rw [hfan]
    exact h.flow.receive rfl hidle
  · change (Function.update s.loop client.loop _ m).pendingFunctors.count _ = _
    rw [update_kept Loop.pendingFunctors s.loop client.loop _ (by rfl) m]
    exact h.establishing m k

theorem Sound.proceed (h : s.Sound) (l : LoopPtr) : (s.proceed l).Sound := by
  unfold ChatServerHp.proceed
  split
  · exact h
  · rename_i message hplace
    have hat : s.fanOut.current l = some (message, []) := by
      change (s.loop l).place.current = _
      rw [hplace]
      rfl
    refine ⟨h.toRecorded.setLoop l _ rfl, ?_, h.establishing.setLoop l _ fun k => rfl⟩
    rw [fanOut_place]
    exact h.flow.finish hat
  · rename_i message next rest hplace
    have hat : s.fanOut.current l = some (message, next :: rest) := by
      change (s.loop l).place.current = _
      rw [hplace]
      rfl
    have hset := h.toRecorded.setLoop l { s.loop l with place := .distributing message rest } rfl
    have hestablishing := h.establishing.setLoop l
      { s.loop l with place := .distributing message rest } fun k => rfl
    dsimp only
    split
    · rename_i hnext
      rw [hnext] at hat
      refine ⟨hset.distribute l message, ?_, hestablishing⟩
      rw [fanOut_distribute, fanOut_place]
      exact h.flow.runHere hat
    · rename_i hnext
      refine ⟨hset.queueInLoop next _, ?_, hestablishing.queueInLoop next nofun⟩
      rw [fanOut_queued, fanOut_place]
      exact h.flow.pass hat hnext

/-- A functor that has to do with no message is taken off the queue. -/
theorem fanOut_pop {rest : List Functor} (hp : (s.loop l).pendingFunctors = cb :: rest)
    (hm : cb.message = none) :
    (s.setLoop l { s.loop l with pendingFunctors := rest }).fanOut = s.fanOut := by
  refine fanOut_kept ?_ rfl
  simp only [Loop.queued, hp, List.filterMap_cons, hm]

theorem Sound.pop (h : s.Sound) {rest : List Functor}
    (hp : (s.loop l).pendingFunctors = cb :: rest) (hm : cb.message = none)
    (hcb : ∀ k, cb ≠ .connectEstablished k) :
    (s.setLoop l { s.loop l with pendingFunctors := rest }).Sound := by
  refine ⟨h.toRecorded.setLoop l _ rfl, (fanOut_pop hp hm).symm ▸ h.flow,
    h.establishing.setLoop l _ fun k => ?_⟩
  rw [hp, List.count_cons, if_neg (by simpa using hcb k)]
  rfl

theorem Sound.popEstablished (h : s.Sound) {rest : List Functor}
    (hp : (s.loop l).pendingFunctors = .connectEstablished conn :: rest) :
    s.clients conn = some ⟨l, .kConnecting⟩ ∧
      (s.setLoop l { s.loop l with pendingFunctors := rest }).EstablishingBut conn := by
  have hcount := h.establishing l conn
  rw [hp, List.count_cons_self] at hcount
  have hc : s.clients conn = some ⟨l, .kConnecting⟩ := by
    by_contra hne
    rw [if_neg hne] at hcount
    omega
  refine ⟨hc, fun m k => ?_⟩
  refine Eq.trans ?_ (if_congr (Iff.refl (k ≠ conn ∧ s.clients k = some ⟨m, .kConnecting⟩)) rfl rfl)
  change (Function.update s.loop l _ m).pendingFunctors.count _ = _
  have hm := h.establishing m k
  by_cases hml : m = l
  · rw [hml] at hm ⊢
    rw [Function.update_self]
    rw [hp, List.count_cons] at hm
    by_cases hk : k = conn
    · rw [if_pos hc] at hcount
      rw [if_neg fun hand => hand.1 hk, hk]
      exact Nat.succ.inj hcount
    · have hne : ¬(Functor.connectEstablished conn == Functor.connectEstablished k) = true := by
        simpa using Ne.symm hk
      rw [if_neg hne, Nat.add_zero] at hm
      exact hm.trans (if_congr (and_iff_right hk).symm rfl rfl)
  · rw [Function.update_of_ne hml, hm]
    refine if_congr ⟨fun he => ⟨fun hk => ?_, he⟩, And.right⟩ rfl rfl
    rw [hk, hc] at he
    cases he
    exact hml rfl

theorem Sound.functor (h : s.Sound) {rest : List Functor}
    (hp : (s.loop l).pendingFunctors = cb :: rest) :
    Yields Sound (fun _ => False)
      ((s.setLoop l { s.loop l with pendingFunctors := rest }).run l cb) := by
  cases cb with
  | connectEstablished conn =>
    obtain ⟨hc, hb⟩ := h.popEstablished hp
    change Yields _ _ ((s.clients conn).elim _ _)
    rw [hc]
    refine connectEstablished_sound (h.toRecorded.setLoop l _ rfl) ?_ hb hc rfl
    exact (fanOut_pop hp rfl).symm ▸ h.flow
  | forceCloseInLoop conn =>
    have ht := h.pop hp rfl nofun
    cases hc : s.clients conn with
    | none =>
      change Yields _ _ ((s.clients conn).elim _ _)
      rw [hc]
      exact ht
    | some client =>
      change Yields _ _ ((s.clients conn).elim _ _)
      rw [hc]
      change Yields _ _ (forceCloseInLoop _ _ _)
      unfold forceCloseInLoop
      split
      · rename_i hst
        exact ht.handleClose hc hst
      · exact ht
  | removeConnectionInLoop conn =>
    have ht := h.pop hp rfl nofun
    change Yields _ _ ((s.clients conn).elim _ _)
    cases s.clients conn with
    | none => exact ht
    | some client => exact ht.removeConnectionInLoop conn client
  | connectDestroyed conn =>
    have ht := h.pop hp rfl nofun
    cases hc : s.clients conn with
    | none =>
      change Yields _ _ ((s.clients conn).elim _ _)
      rw [hc]
      exact ht
    | some client =>
      change Yields _ _ ((s.clients conn).elim _ _)
      rw [hc]
      change Sound (connectDestroyed _ _ _)
      unfold connectDestroyed
      split
      · rename_i hst
        exact ht.goesDown hc (by simp [hst])
      · exact ht
  | onDistributeMessage message =>
    have hqueue : s.fanOut.queue l = message :: rest.filterMap Functor.message := by
      change (s.loop l).queued = _
      rw [Loop.queued, hp]
      rfl
    have hset := h.toRecorded.setLoop l { s.loop l with pendingFunctors := rest } rfl
    refine ⟨hset.distribute l message, ?_, h.establishing.setLoop l _ fun k => ?_⟩
    · rw [fanOut_distribute, fanOut_pending]
      exact h.flow.runQueued hqueue
    · rw [hp, List.count_cons, if_neg (by simp)]
      rfl

theorem step_sound (h : s.Sound) {e : Event} (he : s.enabled e) :
    Yields Sound (fun _ => False) (s.step e) := by
  cases e with
  | newConnection conn => exact h.newConnection he.1
  | onStringMessage conn text =>
    obtain ⟨client, hc, -, hplace⟩ := he
    change Yields _ _ ((s.clients conn).elim _ _)
    rw [Option.mem_def.mp hc]
    exact h.onStringMessage hc hplace text
  | proceed l => exact h.proceed l
  | refuse conn =>
    obtain ⟨client, hc, -, -⟩ := he
    change Yields _ _ ((s.clients conn).elim _ _)
    rw [Option.mem_def.mp hc]
    exact h.forceClose hc
  | handleClose conn =>
    obtain ⟨client, hc, hst, -⟩ := he
    change Yields _ _ ((s.clients conn).elim _ _)
    rw [Option.mem_def.mp hc]
    exact h.handleClose hc hst
  | functor l =>
    obtain ⟨cb, rest, hp⟩ := List.exists_cons_of_ne_nil he.2
    simp only [step, hp]
    exact h.functor hp

theorem foldl_onThreadInit (s : ChatServerHp) (loops : List LoopPtr) :
    loops.foldl onThreadInit s = { s with loops := loops.foldl OrderedSet.insert s.loops } := by
  induction loops generalizing s with
  | nil => rfl
  | cons loop loops ih => exact ih _

theorem mem_foldl_insert (loops : List LoopPtr) (set : OrderedSet LoopPtr) {l : LoopPtr} :
    l ∈ loops.foldl OrderedSet.insert set ↔ l ∈ loops ∨ l ∈ set := by
  induction loops generalizing set with
  | nil => simp
  | cons loop loops ih =>
    rw [List.foldl_cons, ih, OrderedSet.mem_insert, List.mem_cons, or_left_comm, or_assoc]

theorem start_sound (threadPool : EventLoopThreadPool) : (start threadPool).Sound := by
  rw [start, foldl_onThreadInit]
  refine ⟨⟨rfl, nofun, fun l hl => ?_, nofun, fun l conn => ?_, fun l conn => ?_, fun l conn => ?_,
    fun pre post l message receivers he => ?_⟩, ?_, fun l conn => rfl⟩
  · exact (mem_foldl_insert _ _).mpr (.inl hl)
  · exact iff_of_false List.not_mem_nil (stands_none rfl _)
  · exact iff_of_false List.not_mem_nil (stands_none rfl _)
  · exact iff_of_false OrderedSet.not_mem_empty fun hup => List.not_mem_nil hup.1
  · simp at he
  · exact FanOut.initial_flow (OrderedSet.nodup _)

theorem handedTo_eq {receivers : List ConnPtr} (h : receivers.Nodup) :
    (Action.onDistributeMessage l message receivers).handedTo conn =
      if conn ∈ receivers then [message] else [] := by
  rw [Action.handedTo, List.filter_eq]
  split
  · rename_i hmem
    rw [List.count_eq_one_of_mem h hmem]
    rfl
  · rename_i hmem
    rw [List.count_eq_zero.mpr hmem]
    rfl

theorem mem_handed {history : List Action} : message ∈ handed history conn ↔
    ∃ l receivers, .onDistributeMessage l message receivers ∈ history ∧ conn ∈ receivers := by
  unfold handed
  rw [List.mem_flatMap]
  constructor
  · rintro ⟨action, ha, hm⟩
    cases action with
    | up l k => cases hm
    | down l k => cases hm
    | onDistributeMessage l message' receivers =>
      obtain ⟨k, hk, rfl⟩ := List.mem_map.mp hm
      obtain ⟨hmem, he⟩ := List.mem_filter.mp hk
      rw [decide_eq_true_eq] at he
      exact ⟨l, receivers, ha, he ▸ hmem⟩
  · rintro ⟨l, receivers, ha, hconn⟩
    refine ⟨_, ha, List.mem_map.mpr ⟨conn, List.mem_filter.mpr ⟨hconn, by simp⟩, rfl⟩⟩

theorem mem_runs {history : List Action} {receivers : List ConnPtr}
    (h : .onDistributeMessage l message receivers ∈ history) : message ∈ runs history l :=
  List.mem_filterMap.mpr ⟨_, h, if_pos rfl⟩

/-- What was handed over for a connection was run on its loop. -/
theorem handed_runs {history : List Action}
    (h : ∀ k message receivers, .onDistributeMessage k message receivers ∈ history →
      receivers.Nodup ∧ (conn ∈ receivers → k = l)) : (handed history conn).Sublist (runs history l) := by
  induction history with
  | nil => exact List.Sublist.refl _
  | cons action history ih =>
    have hrest := ih fun k message receivers hm =>
      h k message receivers (List.mem_cons_of_mem _ hm)
    cases action with
    | up k conn' => exact hrest
    | down k conn' => exact hrest
    | onDistributeMessage k message receivers =>
      obtain ⟨hn, hloop⟩ := h k message receivers List.mem_cons_self
      rw [handed, List.flatMap_cons, handedTo_eq hn, runs, List.filterMap_cons]
      split
      · rename_i hmem
        rw [Action.runOn, if_pos (hloop hmem)]
        exact hrest.cons_cons message
      · rw [Action.runOn, List.nil_append]
        split
        · exact hrest
        · exact hrest.trans (List.sublist_cons_self _ _)

/-- The broadcast so far. Each message is, for each of the loops, run once, queued once
or still to come; on the loop of a client its run hands it over if the client is up just then. -/
structure Broadcast (s : ChatServerHp) : Prop where
  once : ∀ message ∈ s.received, ∀ l ∈ s.loops,
    (runs s.history l).count message + (s.loop l).queued.count message +
      (s.fanOut.toCome message.source l).count message = 1
  settled : ∀ l conn, .up l conn ∈ s.history →
    l ∈ s.loops ∧ ∀ k, .up k conn ∈ s.history → k = l
  handed_once : ∀ pre post l message receivers conn,
    s.history = pre ++ .onDistributeMessage l message receivers :: post → Up pre l conn →
      (handed s.history conn).count message = 1
  no_other : ∀ conn message, message ∈ handed s.history conn → ∃ pre post l receivers,
    s.history = pre ++ .onDistributeMessage l message receivers :: post ∧ Up pre l conn
  in_order : ∀ sender receiver,
    ((handed s.history receiver).filter fun message => message.sender = sender).Sublist
      (s.received.filter fun message => message.sender = sender)

theorem Recorded.settled (h : s.Recorded) (hup : .up l conn ∈ s.history) :
    l ∈ s.loops ∧ ∀ k, .up k conn ∈ s.history → k = l := by
  obtain ⟨client, hc, hl, -⟩ := (h.ups l conn).mp hup
  refine ⟨hl ▸ h.placed conn client hc, fun k hk => ?_⟩
  have hstands := (stands_iff hc).mp ((h.ups k conn).mp hk)
  exact hstands.1.symm.trans hl

/-- A run of a message has handed it over for the clients that were up. -/
theorem Recorded.receiver_up (h : s.Recorded) {receivers : List ConnPtr}
    (hm : .onDistributeMessage l message receivers ∈ s.history) :
    receivers.Nodup ∧ ∀ conn ∈ receivers, .up l conn ∈ s.history ∧ ∃ pre post,
      s.history = pre ++ .onDistributeMessage l message receivers :: post ∧ Up pre l conn := by
  obtain ⟨pre, post, hcut⟩ := List.append_of_mem hm
  obtain ⟨hn, hmem⟩ := h.receivers pre post l message receivers hcut
  refine ⟨hn, fun conn hconn => ?_⟩
  have hup := (hmem conn).mp hconn
  refine ⟨?_, pre, post, hcut, hup⟩
  rw [hcut]
  exact List.mem_append_left _ hup.1

theorem Recorded.received_nodup (h : s.Recorded) : s.received.Nodup := by
  refine List.Nodup.of_map Message.serial ?_
  rw [h.serials]
  exact List.nodup_range

theorem Sound.runs_nodup (h : s.Sound) (hl : l ∈ s.loops) : (runs s.history l).Nodup :=
  h.flow.runs_nodup h.received_nodup hl

/-- In any part of what was done, a message was handed over for a client of `l` by a run on `l`. -/
theorem Recorded.handed_here (h : s.Recorded) (hup : .up l conn ∈ s.history)
    {part : List Action} (hpart : part ⊆ s.history) (hm : message ∈ handed part conn) :
    message ∈ runs part l := by
  obtain ⟨k, receivers, hrun, hconn⟩ := mem_handed.mp hm
  have hk := ((h.receiver_up (hpart hrun)).2 conn hconn).1
  rw [← (h.settled hup).2 k hk]
  exact mem_runs hrun

theorem Sound.handed_once (h : s.Sound) {pre post : List Action} {receivers : List ConnPtr}
    (hcut : s.history = pre ++ .onDistributeMessage l message receivers :: post)
    (hup : Up pre l conn) : (handed s.history conn).count message = 1 := by
  obtain ⟨hn, hmem⟩ := h.receivers pre post l message receivers hcut
  have hpre : pre ⊆ s.history := by
    rw [hcut]
    exact List.subset_append_left _ _
  have hpost : post ⊆ s.history := by
    rw [hcut]
    exact fun a ha => List.mem_append_right _ (List.mem_cons_of_mem _ ha)
  have hhere := hpre hup.1
  -- no other run on the loop was of this message
  have hruns := h.runs_nodup (h.settled hhere).1
  have hone : Action.runOn l (.onDistributeMessage l message receivers) = some message := if_pos rfl
  rw [hcut, runs, List.filterMap_append, List.filterMap_cons_some hone] at hruns
  obtain ⟨-, hlater, hapart⟩ := List.nodup_append.mp hruns
  have hnotpre : message ∉ handed pre conn := fun hm =>
    hapart message (h.handed_here hhere hpre hm) message List.mem_cons_self rfl
  have hnotpost : message ∉ handed post conn := fun hm =>
    (List.nodup_cons.mp hlater).1 (h.handed_here hhere hpost hm)
  have hhanded : handed s.history conn = handed pre conn ++ [message] ++ handed post conn := by
    rw [hcut, handed, List.flatMap_append, List.flatMap_cons, handedTo_eq hn,
      if_pos ((hmem conn).mpr hup), ← List.append_assoc]
    rfl
  rw [hhanded, List.count_append, List.count_append, List.count_eq_zero.mpr hnotpre,
    List.count_eq_zero.mpr hnotpost, List.count_singleton_self]

/-- The messages of one sender all come by its loop. -/
theorem Recorded.filter_sender (h : s.Recorded) {client : Client}
    (hc : s.clients conn = some client) {messages : List Message} (hm : messages ⊆ s.received) :
    messages.filter (fun message => message.sender = conn) =
      (messages.filter fun message => message.source = client.loop).filter
        fun message => message.sender = conn := by
  rw [List.filter_filter]
  refine List.filter_congr fun message hmem => ?_
  by_cases hs : message.sender = conn
  · have hstands := h.senders message (hm hmem)
    rw [hs] at hstands
    have hsource := ((stands_iff hc).mp hstands).1
    simp [hs, hsource]
  · simp [hs]

theorem Sound.in_order (h : s.Sound) (sender receiver : ConnPtr) :
    ((handed s.history receiver).filter fun message => message.sender = sender).Sublist
      (s.received.filter fun message => message.sender = sender) := by
  by_cases hup : ∃ l, .up l receiver ∈ s.history
  · obtain ⟨l, hup⟩ := hup
    have hloop := (h.settled hup).1
    have hruns : (handed s.history receiver).Sublist (runs s.history l) :=
      handed_runs fun k message receivers hm => by
        obtain ⟨hn, hmem⟩ := h.receiver_up hm
        exact ⟨hn, fun hr => (h.settled hup).2 k (hmem receiver hr).1⟩
    have hreceived : runs s.history l ⊆ s.received := fun m hm => h.flow.runs_received hloop hm
    refine (hruns.filter _).trans ?_
    cases hc : s.clients sender with
    | none =>
      have hnone : (runs s.history l).filter (fun message => message.sender = sender) = [] := by
        refine List.filter_eq_nil_iff.mpr fun message hm hs => ?_
        rw [decide_eq_true_eq] at hs
        exact stands_none hc _ (hs ▸ h.senders message (hreceived hm))
      rw [hnone]
      exact List.nil_sublist _
    | some client =>
      rw [h.filter_sender hc hreceived, h.filter_sender hc (List.Subset.refl _)]
      exact (h.flow.in_order hloop client.loop).sublist.filter _
  · have hnone : handed s.history receiver = [] := by
      refine List.eq_nil_iff_forall_not_mem.mpr fun message hm => hup ?_
      obtain ⟨l, receivers, hrun, hconn⟩ := mem_handed.mp hm
      exact ⟨l, ((h.receiver_up hrun).2 receiver hconn).1⟩
    rw [hnone]
    exact List.nil_sublist _

theorem Sound.broadcast (h : s.Sound) : s.Broadcast where
  once message hm l hl := h.flow.once h.received_nodup hl hm
  settled l conn := h.settled
  handed_once pre post l message receivers conn := h.handed_once
  no_other conn message hm := by
    obtain ⟨l, receivers, hrun, hconn⟩ := mem_handed.mp hm
    obtain ⟨-, pre, post, hcut, hup⟩ := (h.receiver_up hrun).2 conn hconn
    exact ⟨pre, post, l, receivers, hcut, hup⟩
  in_order := h.in_order

/-- Whatever the loops and clients do, every message is handed over once for each client that is up
when it is run on the loop of the client, for no other, and in the order of its sender. -/
theorem chat_broadcasts (threadPool : EventLoopThreadPool) {es : List Event}
    (hl : machine.Legal (fun _ _ => True) (start threadPool) es) :
    ∃ t, machine.run (start threadPool) es = .ok t ∧ t.Broadcast := by
  have hrun := Machine.run_keeps (I := Sound) (b := fun _ => False)
    (fun _ _ hs he _ => step_sound hs he) (start_sound threadPool) hl
  obtain ⟨t, ht, hsound⟩ := hrun.returns
  exact ⟨t, ht, hsound.broadcast⟩

/-- Two loops, whose addresses are not in the order of the threads. -/
def samplePool : EventLoopThreadPool := .start 1 [5, 3] (by decide)

/-- Clients 10 and 11 are on the loops 5 and 3. The message of client 10 waits for loop 3 until
client 11 is down. -/
def sampleEvents : List Event :=
  [.newConnection 10, .newConnection 11, .functor 5, .functor 3, .onStringMessage 10 [104, 105],
    .proceed 5, .handleClose 11, .proceed 5, .proceed 5, .functor 3]

theorem chat_broadcasts_sample :
    machine.Legal (fun _ _ => True) (start samplePool) sampleEvents ∧
      ∃ t, machine.run (start samplePool) sampleEvents = .ok t ∧ t.Broadcast := by
  have hl : machine.Legal (fun _ _ => True) (start samplePool) sampleEvents := by decide +kernel
  exact ⟨hl, chat_broadcasts samplePool hl⟩

example : (machine.run (start samplePool) sampleEvents).map
    (fun t => (handed t.history 10, handed t.history 11)) =
      .ok ([⟨10, 5, 0, [104, 105]⟩], []) := by decide +kernel

end Muduo.Examples.ChatServerHp
