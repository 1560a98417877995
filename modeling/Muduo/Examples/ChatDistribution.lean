import Muduo.Examples.ChatServerHp

namespace Muduo.Examples.ChatServerHp
open Muduo.Lib Muduo.Net

/-- The UP callback of a connection was seen on a loop, its DOWN callback was not. -/
def Up (history : List Action) (l : LoopPtr) (conn : ConnPtr) : Prop :=
  .up l conn ∈ history ∧ .down l conn ∉ history

def Functor.message : Functor → Option Message
  | .onDistributeMessage message => some message
  | _ => none

def Action.runOn (l : LoopPtr) : Action → Option Message
  | .onDistributeMessage l' message _ => if l' = l then some message else none
  | _ => none

/-- What `Codec::send` was called with for a connection. -/
def Action.handedTo (conn : ConnPtr) : Action → List Message
  | .onDistributeMessage _ message receivers =>
    (receivers.filter fun receiver => receiver = conn).map fun _ => message
  | _ => []

def Place.current : Place → Option (Message × List LoopPtr)
  | .idle => none
  | .distributing message rest => some (message, rest)

def Loop.queued (loop : Loop) : List Message := loop.pendingFunctors.filterMap Functor.message

/-- The messages run on a loop, in order. -/
def runs (history : List Action) (l : LoopPtr) : List Message := history.filterMap (Action.runOn l)

/-- The messages handed to `Codec::send` for a connection, in order. -/
def handed (history : List Action) (conn : ConnPtr) : List Message :=
  history.flatMap (Action.handedTo conn)

/-- The server as messages that fan out to its loops. -/
def fanOut (s : ChatServerHp) : FanOut LoopPtr Message where
  sinks := s.loops.elems
  received := s.received
  runs := runs s.history
  queue l := (s.loop l).queued
  current l := (s.loop l).place.current

variable {s : ChatServerHp} {l : LoopPtr} {conn : ConnPtr} {client : Client} {loop : Loop}
  {message : Message} {history : List Action}

/-- The client is known, on the loop `l`, in one of the states `p`. -/
def Stands (s : ChatServerHp) (conn : ConnPtr) (l : LoopPtr) (p : StateE → Prop) : Prop :=
  ∃ client ∈ s.clients conn, client.loop = l ∧ p client.state

/-- What the server holds agrees with what was done: the messages received, the clients and their
callbacks, the local connections of a loop, and what each run of `onDistributeMessage` did. -/
structure Recorded (s : ChatServerHp) : Prop where
  serials : s.received.map Message.serial = List.range s.received.length
  senders : ∀ message ∈ s.received, s.Stands message.sender message.source fun _ => True
  pool : ∀ l ∈ s.threadPool.getAllLoops, l ∈ s.loops
  placed : ∀ conn, ∀ client ∈ s.clients conn, client.loop ∈ s.loops
  ups : ∀ l conn, .up l conn ∈ s.history ↔ s.Stands conn l (· ≠ .kConnecting)
  downs : ∀ l conn, .down l conn ∈ s.history ↔ s.Stands conn l (· = .kDisconnected)
  members : ∀ l conn, conn ∈ (s.loop l).localConnections ↔ Up s.history l conn
  receivers : ∀ pre post l message receivers,
    s.history = pre ++ .onDistributeMessage l message receivers :: post →
    receivers.Nodup ∧ ∀ conn, conn ∈ receivers ↔ Up pre l conn

/-- A connection that is still to be established is queued once for that, on its own loop. -/
def Establishing (s : ChatServerHp) : Prop :=
  ∀ l conn, (s.loop l).pendingFunctors.count (.connectEstablished conn) =
    if s.clients conn = some ⟨l, .kConnecting⟩ then 1 else 0

structure Sound (s : ChatServerHp) : Prop extends Recorded s where
  flow : s.fanOut.Flow Message.source
  establishing : s.Establishing

/-- What a change of one loop leaves as it was there, it leaves on every loop. -/
theorem update_kept {γ : Type} (f : Loop → γ) (loops : LoopPtr → Loop) (l : LoopPtr) (loop : Loop)
    (h : f loop = f (loops l)) (k : LoopPtr) : f (Function.update loops l loop k) = f (loops k) := by
  by_cases hk : k = l
  · rw [hk, Function.update_self, h]
  · rw [Function.update_of_ne hk]

theorem fanOut_setLoop (s : ChatServerHp) (l : LoopPtr) (loop : Loop) :
    (s.setLoop l loop).fanOut = { s.fanOut with
      queue := Function.update s.fanOut.queue l loop.queued
      current := Function.update s.fanOut.current l loop.place.current } := by
  have hqueue := Function.comp_update Loop.queued s.loop l loop
  have hcurrent := Function.comp_update (fun loop => loop.place.current) s.loop l loop
  change FanOut.mk _ _ _ (Loop.queued ∘ Function.update s.loop l loop)
    ((fun loop => loop.place.current) ∘ Function.update s.loop l loop) = _
  rw [hqueue, hcurrent]
  rfl

theorem fanOut_kept (hq : loop.queued = (s.loop l).queued) (hp : loop.place = (s.loop l).place) :
    (s.setLoop l loop).fanOut = s.fanOut := by
  rw [fanOut_setLoop, hq, hp]
  change ({ s.fanOut with
    queue := Function.update s.fanOut.queue l (s.fanOut.queue l)
    current := Function.update s.fanOut.current l (s.fanOut.current l) } : FanOut _ _) = _
  rw [Function.update_eq_self, Function.update_eq_self]

theorem runs_append (history : List Action) (action : Action) (l : LoopPtr) :
    runs (history ++ [action]) l = runs history l ++ (action.runOn l).toList := by
  rw [runs, List.filterMap_append]
  cases h : action.runOn l <;> simp [h, runs]

theorem fanOut_record {action : Action} (ha : ∀ l, action.runOn l = none) :
    fanOut { s with history := s.history ++ [action] } = s.fanOut := by
  have hruns : runs (s.history ++ [action]) = runs s.history := by
    funext l
    rw [runs_append, ha, Option.toList_none, List.append_nil]
  simp only [fanOut, hruns]

theorem fanOut_onConnection (s : ChatServerHp) (conn : ConnPtr) (client : Client) :
    (s.onConnection conn client).fanOut = s.fanOut := by
  unfold onConnection
  dsimp only
  split
  · exact (fanOut_record fun l => rfl).trans (fanOut_kept rfl rfl)
  · exact (fanOut_record fun l => rfl).trans (fanOut_kept rfl rfl)

theorem fanOut_place (l : LoopPtr) (place : Place) :
    (s.setLoop l { s.loop l with place }).fanOut =
      { s.fanOut with current := Function.update s.fanOut.current l place.current } := by
  rw [fanOut_setLoop]
  change ({ s.fanOut with
    queue := Function.update s.fanOut.queue l (s.fanOut.queue l)
    current := Function.update s.fanOut.current l place.current } : FanOut _ _) = _
  rw [Function.update_eq_self]

theorem fanOut_pending (l : LoopPtr) (pendingFunctors : List Functor) :
    (s.setLoop l { s.loop l with pendingFunctors }).fanOut = { s.fanOut with
      queue := Function.update s.fanOut.queue l (pendingFunctors.filterMap Functor.message) } := by
  rw [fanOut_setLoop]
  change ({ s.fanOut with
    queue := Function.update s.fanOut.queue l (pendingFunctors.filterMap Functor.message)
    current := Function.update s.fanOut.current l (s.fanOut.current l) } : FanOut _ _) = _
  rw [Function.update_eq_self]

theorem fanOut_queued (l : LoopPtr) (message : Message) :
    (s.queueInLoop l (.onDistributeMessage message)).fanOut =
      { s.fanOut with
        queue := Function.update s.fanOut.queue l (s.fanOut.queue l ++ [message]) } := by
  rw [queueInLoop, fanOut_pending, List.filterMap_append]
  rfl

theorem fanOut_queueInLoop (l : LoopPtr) (cb : Functor) (hcb : cb.message = none) :
    (s.queueInLoop l cb).fanOut = s.fanOut := by
  have hnone : [cb].filterMap Functor.message = [] := by simp [hcb]
  rw [queueInLoop, fanOut_pending, List.filterMap_append, hnone, List.append_nil]
  change ({ s.fanOut with queue := Function.update s.fanOut.queue l (s.fanOut.queue l) } :
    FanOut _ _) = _
  rw [Function.update_eq_self]

theorem fanOut_distribute (l : LoopPtr) (message : Message) :
    (s.onDistributeMessage l message).fanOut =
      { s.fanOut with
        runs := Function.update s.fanOut.runs l (s.fanOut.runs l ++ [message]) } := by
  have hruns : runs (s.onDistributeMessage l message).history =
      Function.update (runs s.history) l (runs s.history l ++ [message]) := by
    funext k
    change runs (s.history ++ [_]) k = _
    rw [runs_append]
    by_cases hk : k = l
    · rw [hk, Function.update_self, Action.runOn, if_pos rfl, Option.toList_some]
    · rw [Function.update_of_ne hk, Action.runOn, if_neg (Ne.symm hk), Option.toList_none,
        List.append_nil]
  simp only [fanOut, hruns]
  rfl

theorem Recorded.setLoop (h : s.Recorded) (l : LoopPtr) (loop : Loop)
    (hl : loop.localConnections = (s.loop l).localConnections) : (s.setLoop l loop).Recorded := by
  refine ⟨h.serials, h.senders, h.pool, h.placed, h.ups, h.downs, fun k conn => ?_, h.receivers⟩
  change conn ∈ (Function.update s.loop l loop k).localConnections ↔ _
  rw [update_kept Loop.localConnections s.loop l loop hl k]
  exact h.members k conn

theorem Recorded.queueInLoop (h : s.Recorded) (l : LoopPtr) (cb : Functor) :
    (s.queueInLoop l cb).Recorded := h.setLoop l _ rfl

theorem stands_setClient {k : ConnPtr} {p : StateE → Prop} :
    (s.setClient conn client).Stands k l p ↔
      if k = conn then client.loop = l ∧ p client.state else s.Stands k l p := by
  unfold Stands setClient
  by_cases hk : k = conn
  · rw [if_pos hk, hk]
    simp only [Function.update_self, Option.mem_some_iff, exists_eq_left']
  · simp only [Function.update_of_ne hk, if_neg hk]

theorem stands_iff (h : s.clients conn = some client) {p : StateE → Prop} :
    s.Stands conn l p ↔ client.loop = l ∧ p client.state := by
  unfold Stands
  simp only [h, Option.mem_some_iff, exists_eq_left']

theorem stands_none (h : s.clients conn = none) (p : StateE → Prop) : ¬s.Stands conn l p := by
  unfold Stands
  simp [h]

/-- What is the last of a list is behind, or is, what it is cut at. -/
theorem concat_cut {a b : Action} {pre post : List Action}
    (h : history ++ [a] = pre ++ b :: post) :
    pre = history ∧ b = a ∨ ∃ post', history = pre ++ b :: post' := by
  rcases List.eq_nil_or_concat post with rfl | ⟨post', c, rfl⟩
  · obtain ⟨hpre, hb⟩ := List.append_inj' h rfl
    exact .inl ⟨hpre.symm, (List.cons.inj hb).1.symm⟩
  · rw [List.concat_eq_append, ← List.cons_append, ← List.append_assoc] at h
    exact .inr ⟨post', (List.append_inj' h rfl).1⟩

theorem Recorded.receivers_append (h : s.Recorded) {action : Action}
    (ha : ∀ l message receivers, action = .onDistributeMessage l message receivers →
      receivers.Nodup ∧ ∀ conn, conn ∈ receivers ↔ Up s.history l conn) :
    ∀ pre post l message receivers,
      s.history ++ [action] = pre ++ .onDistributeMessage l message receivers :: post →
      receivers.Nodup ∧ ∀ conn, conn ∈ receivers ↔ Up pre l conn := by
  intro pre post l message receivers hcut
  rcases concat_cut hcut with ⟨rfl, hlast⟩ | ⟨post', hcut'⟩
  · exact ha l message receivers hlast.symm
  · exact h.receivers pre post' l message receivers hcut'

theorem stands_moved (hc : s.clients conn = some client) {state : StateE} {p : StateE → Prop}
    (hp : p state ↔ p client.state) (k : ConnPtr) (l : LoopPtr) :
    (s.setClient conn { client with state }).Stands k l p ↔ s.Stands k l p := by
  rw [stands_setClient]
  split
  · rename_i hk
    rw [hk, stands_iff hc, hp]
  · exact Iff.rfl

theorem Recorded.placed_set (h : s.Recorded) (hl : client.loop ∈ s.loops) (k : ConnPtr) :
    ∀ client' ∈ (s.setClient conn client).clients k, client'.loop ∈ s.loops := by
  intro client' hk
  change client' ∈ Function.update s.clients conn _ k at hk
  by_cases hkc : k = conn
  · rw [hkc, Function.update_self, Option.mem_some_iff] at hk
    exact hk ▸ hl
  · rw [Function.update_of_ne hkc] at hk
    exact h.placed k client' hk

/-- A client goes from one state to another that its callbacks do not tell apart. -/
theorem Recorded.setClient (h : s.Recorded) (hc : s.clients conn = some client) {state : StateE}
    (hup : state = .kConnecting ↔ client.state = .kConnecting)
    (hdown : state = .kDisconnected ↔ client.state = .kDisconnected) :
    (s.setClient conn { client with state }).Recorded := by
  refine ⟨h.serials, fun m hm => ?_, h.pool, h.placed_set (h.placed conn client hc), fun l k => ?_,
    fun l k => ?_, h.members, h.receivers⟩
  · exact (stands_moved hc (iff_of_true trivial trivial) _ _).mpr (h.senders m hm)
  · exact (h.ups l k).trans (stands_moved hc (not_congr hup) k l).symm
  · exact (h.downs l k).trans (stands_moved hc hdown k l).symm

/-- A connection callback changes the local connections of its loop and is recorded. -/
theorem Recorded.callback (h : s.Recorded) (hc : s.clients conn = some client) {state : StateE}
    {connections : OrderedSet ConnPtr} (action : Action) (ha : ∀ l, action.runOn l = none)
    {t : ChatServerHp} (ht : t = { (s.setClient conn { client with state }).setLoop client.loop
      { s.loop client.loop with localConnections := connections } with
        history := s.history ++ [action] })
    (hups : ∀ l k, .up l k ∈ t.history ↔
      (s.setClient conn { client with state }).Stands k l (· ≠ .kConnecting))
    (hdowns : ∀ l k, .down l k ∈ t.history ↔
      (s.setClient conn { client with state }).Stands k l (· = .kDisconnected))
    (hmembers : ∀ k, k ∈ connections ↔ Up t.history client.loop k)
    (hothers : ∀ l k, l ≠ client.loop → (Up t.history l k ↔ Up s.history l k)) :
    t.Recorded := by
  refine ⟨?_, ?_, ?_, ?_, ?_, ?_, fun l k => ?_, ?_⟩
  · rw [ht]
    exact h.serials
  · rw [ht]
    exact fun m hm => (stands_moved hc (iff_of_true trivial trivial) _ _).mpr (h.senders m hm)
  · rw [ht]
    exact h.pool
  · rw [ht]
    exact h.placed_set (h.placed conn client hc)
  · rw [ht] at hups ⊢
    exact hups
  · rw [ht] at hdowns ⊢
    exact hdowns
  · by_cases hl : l = client.loop
    · rw [hl, ← hmembers k, ht]
      change k ∈ (Function.update s.loop _ _ client.loop).localConnections ↔ _
      rw [Function.update_self]
    · rw [hothers l k hl, ← h.members l k, ht]
      change k ∈ (Function.update s.loop _ _ l).localConnections ↔ _
      rw [Function.update_of_ne hl]
  · rw [ht]
    exact h.receivers_append fun l message receivers he => by
      have hl := ha l
      rw [he, Action.runOn, if_pos rfl] at hl
      cases hl

theorem up_after_up {k : ConnPtr} {m : LoopPtr} : Up (history ++ [.up l conn]) m k ↔
    Up history m k ∨ (m = l ∧ k = conn) ∧ .down m k ∉ history := by
  simp only [Up, List.mem_append, List.mem_singleton, Action.up.injEq, reduceCtorEq, or_false,
    or_and_right]

theorem up_after_down {k : ConnPtr} {m : LoopPtr} : Up (history ++ [.down l conn]) m k ↔
    Up history m k ∧ ¬(m = l ∧ k = conn) := by
  simp only [Up, List.mem_append, List.mem_singleton, Action.down.injEq, reduceCtorEq, or_false,
    not_or, and_assoc]

theorem Recorded.comesUp (h : s.Recorded) (hc : s.clients conn = some client)
    (hst : client.state = .kConnecting) :
    ((s.setClient conn { client with state := .kConnected }).onConnection conn
      { client with state := .kConnected }).Recorded := by
  have hfresh : ∀ l, .up l conn ∉ s.history := fun l hup => by
    have hstands := (stands_iff hc).mp ((h.ups l conn).mp hup)
    exact hstands.2 hst
  have hstay : ∀ l, .down l conn ∉ s.history := fun l hdown => by
    have hstands := (stands_iff hc).mp ((h.downs l conn).mp hdown)
    rw [hst] at hstands
    cases hstands.2
  refine h.callback hc (.up client.loop conn) (fun l => rfl) rfl (fun l k => ?_)
    (fun l k => ?_) (fun k => ?_) (fun l k hl => ?_)
  · change _ ∈ s.history ++ [_] ↔ _
    rw [stands_setClient, List.mem_append, List.mem_singleton, Action.up.injEq, h.ups]
    by_cases hk : k = conn
    · rw [if_pos hk, hk, ← h.ups]
      simp only [hfresh, false_or, and_true, ne_eq, reduceCtorEq, not_false_eq_true]
      exact eq_comm
    · simp only [hk, and_false, or_false, if_false]
  · change _ ∈ s.history ++ [_] ↔ _
    rw [stands_moved hc (by simp [hst]), ← h.downs]
    simp
  · change _ ↔ Up (s.history ++ [_]) _ _
    rw [OrderedSet.mem_insert, up_after_up]
    change _ ∨ k ∈ (s.loop client.loop).localConnections ↔ _
    rw [h.members, or_comm]
    refine or_congr Iff.rfl ⟨fun hk => ⟨⟨rfl, hk⟩, hk ▸ hstay _⟩, fun hk => hk.1.2⟩
  · change Up (s.history ++ [_]) _ _ ↔ _
    simp only [up_after_up, hl, false_and, or_false]

theorem Recorded.goesDown (h : s.Recorded) (hc : s.clients conn = some client)
    (hst : client.state ≠ .kConnecting) :
    ((s.setClient conn { client with state := .kDisconnected }).onConnection conn
      { client with state := .kDisconnected }).Recorded := by
  refine h.callback hc (.down client.loop conn) (fun l => rfl) rfl (fun l k => ?_)
    (fun l k => ?_) (fun k => ?_) (fun l k hl => ?_)
  · change _ ∈ s.history ++ [_] ↔ _
    rw [stands_moved hc (by simp [hst]), ← h.ups]
    simp
  · change _ ∈ s.history ++ [_] ↔ _
    rw [stands_setClient, List.mem_append, List.mem_singleton, Action.down.injEq, h.downs]
    by_cases hk : k = conn
    · rw [if_pos hk, hk, stands_iff hc]
      simp only [and_true]
      exact ⟨fun hor => hor.elim And.left Eq.symm, fun he => .inr he.symm⟩
    · simp only [hk, and_false, or_false, if_false]
  · change _ ↔ Up (s.history ++ [_]) _ _
    rw [OrderedSet.mem_erase, up_after_down]
    change _ ∧ k ∈ (s.loop client.loop).localConnections ↔ _
    rw [h.members, and_comm]
    simp only [true_and, ne_eq]
  · change Up (s.history ++ [_]) _ _ ↔ _
    simp only [up_after_down, hl, false_and, not_false_eq_true, and_true]

/-- `Codec::send` is called for the local connections. -/
theorem Recorded.distribute (h : s.Recorded) (l : LoopPtr) (message : Message) :
    (s.onDistributeMessage l message).Recorded := by
  refine ⟨h.serials, h.senders, h.pool, h.placed, fun k conn => ?_, fun k conn => ?_,
    fun k conn => ?_, h.receivers_append fun l' message' receivers he => ?_⟩
  · refine Iff.trans ?_ (h.ups k conn)
    simp [onDistributeMessage]
  · refine Iff.trans ?_ (h.downs k conn)
    simp [onDistributeMessage]
  · change conn ∈ (s.loop k).localConnections ↔ Up (s.history ++ [_]) k conn
    rw [h.members]
    simp [Up]
  · cases he
    exact ⟨(s.loop l).localConnections.nodup, fun conn => h.members l conn⟩

end Muduo.Examples.ChatServerHp
