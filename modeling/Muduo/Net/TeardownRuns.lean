import Muduo.Net.ServerRuns
import Muduo.Net.ServerServing

namespace Muduo.Net
open Muduo.Lib

namespace TcpServer

variable {s s' : TcpServer} {k k' : Nat} {r : ServerConnection} {st : Stage} {l : LoopId}
  {c : TcpConnection} {left order : List Nat} {halts reopens : Prop}

/-- A connection of a server that is destroyed: the destructor still has to see to those that are
`left`, the others have been told to go or are gone. -/
def Doomed (left : List Nat) (k : Nat) (_ : View) (r : ServerConnection) : Stage → Prop
  | .accepted destroyed => destroyed = true ↔ k ∉ left
  | .up destroyed => r.conn.state = .kConnected ∧ (destroyed = true ↔ k ∉ left)
  | .closing | .leaving => False
  | .down destroyed => k ∉ left ∧ (destroyed = true → r.conn.channel.events = kNoneEvent)

theorem mem_of_view {t : Task} (h : t ∈ (s.view k).queue l) : (k, t) ∈ s.pendingFunctors l := by
  obtain ⟨x, hx, ht⟩ := List.mem_filterMap.mp h
  split at ht
  · rename_i hk
    obtain rfl := Option.some.inj ht
    subst hk
    exact hx
  · exact nomatch ht

theorem Course.awaited (hc : Course (s.view k) r (.down true)) :
    (k, .own .connectDestroyed) ∈ s.pendingFunctors r.loop := by
  have hmoves : (s.view k).moves r.loop = [.own .connectDestroyed] := by
    rw [hc.moves, Stage.tasks, place_self]
    rfl
  refine mem_of_view (List.mem_of_mem_filter (p := Task.moves) ?_)
  change _ ∈ (s.view k).moves r.loop
  rw [hmoves]
  exact List.mem_singleton_self _

theorem Running.mem_listed (h : Running Served s) (hk : s.accepted k = some r) :
    k ∈ s.listed ↔ (s.view k).listed := by
  have hname := h.names k r hk
  rw [listed, List.mem_filter, List.mem_range, and_iff_right (Accounts.lt h hk), decide_eq_true_eq]
  constructor
  · rintro ⟨r₁, hr₁, hl⟩
    obtain rfl := Option.some.inj (hk.symm.trans hr₁)
    rw [hname] at hl
    exact hl
  · intro hl
    refine ⟨r, hk, ?_⟩
    rw [hname]
    exact hl

/-- What the destructor finds. -/
theorem Running.doom (h : Running Served s) (hl : s.Lists order) (hr : s.Ready) :
    Running (Doomed order) s := by
  refine ⟨h.small, h.fresh, h.names, h.entries, h.absent, fun k r hk => ?_⟩
  obtain ⟨st, hc, hlisted, hfree⟩ := h.each k r hk
  obtain ⟨hopen, hquiet⟩ := hr k (Accounts.lt h hk) r hk
  have hmem : k ∈ order ↔ st.Listed := (hl.mem_iff.trans (h.mem_listed hk)).trans hlisted
  have hstate : st.Listed → r.conn.state = .kConnecting ∨ r.conn.state = .kConnected := by
    intro hst
    refine hopen ?_
    rw [h.names k r hk]
    exact hlisted.mpr hst
  refine ⟨st, hc, ?_⟩
  have hallows := hc.conn.state
  cases st with
  | accepted destroyed =>
    obtain rfl : destroyed = false := hfree
    exact iff_of_false nofun (not_not.mpr (hmem.mpr trivial))
  | up destroyed =>
    obtain rfl : destroyed = false := hfree
    refine ⟨?_, iff_of_false nofun (not_not.mpr (hmem.mpr trivial))⟩
    rcases hstate trivial with hst | hst
    · rw [hst] at hallows
      exact (hallows.elim nofun nofun)
    · exact hst
  | closing =>
    rw [show r.conn.state = .kDisconnected from hallows] at hstate
    exact (hstate trivial).elim nofun nofun
  | leaving =>
    rw [show r.conn.state = .kDisconnected from hallows] at hstate
    exact (hstate trivial).elim nofun nofun
  | down destroyed =>
    refine ⟨fun hin => hmem.mp hin, fun hd => ?_⟩
    subst hd
    exact of_decide_eq_true (hquiet hc.awaited)

/-- What does not close it keeps it on its way. -/
theorem Doomed.keep {v v' : View} {hist : List (Milestone × LoopId)} (h : Doomed left k v r st)
    (hc : Course v r st) (hk : r.conn.Keeps halts reopens c)
    (hhalts : halts → r.conn.state ≠ .kConnected)
    (hreopens : reopens → r.conn.state = .kDisconnected → st ≠ .down true) :
    Doomed left k v' { r with conn := { c with pendingFunctors := [] }, history := hist } st := by
  cases st with
  | accepted destroyed => exact h
  | up destroyed =>
    refine ⟨?_, h.2⟩
    rcases hk.state with hst | ⟨hhalt, hst, -⟩
    · exact hst.trans h.1
    · exact absurd hst (hhalts hhalt)
  | closing => exact h
  | leaving => exact h
  | down destroyed =>
    refine ⟨h.1, fun hd => ?_⟩
    subst hd
    have hdown : r.conn.state = .kDisconnected := hc.conn.state
    exact hk.quiet (fun hre => hreopens hre hdown rfl) hdown (h.2 rfl)

/-- The destructor is done with the first connection. -/
theorem Doomed.drop {v : View} (hne : k' ≠ k) (h : Doomed (k :: left) k' v r st) :
    Doomed left k' v r st := by
  have hmem : k' ∈ k :: left ↔ k' ∈ left := by
    rw [List.mem_cons, or_iff_right hne]
  cases st with
  | accepted destroyed => exact h.trans (not_congr hmem)
  | up destroyed => exact ⟨h.1, h.2.trans (not_congr hmem)⟩
  | closing => exact h
  | leaving => exact h
  | down destroyed => exact ⟨fun hin => h.1 (hmem.mpr hin), h.2⟩

/-- `connectDestroyed` goes to another loop. -/
theorem queue_touches (hk : s.accepted k = some r) {st' : Stage}
    (hc : Course ((s.view k).push r.loop [.own .connectDestroyed]) r st') :
    Touches s (s.queueInLoop r.loop (k, .own .connectDestroyed)) k r r st' := by
  refine .same_record hk rfl rfl rfl rfl rfl (fun k' hne => view_queueInLoop_ne hne _) ?_
  rw [view_queueInLoop_self]
  exact hc

/-- `connectDestroyed` at once. -/
theorem perish_touches (hc : Course (s.view k) r (.up false))
    (hp : Perished r.conn c) {ms : List (Milestone × LoopId)} :
    Touches s (s.record l k r ms c) k r { r with
      conn := { c with pendingFunctors := [] }
      history := r.history ++ ms ++ if c.log.downs = r.conn.log.downs then [] else [(.down, l)] }
      (.down false) := by
  refine ⟨rfl, rfl, rfl, rfl, ⟨rfl, rfl⟩, fun _ _ => id,
    fun k' _ => view_record_quiet hp.drained hp.closeCallbacks, ?_⟩
  rw [view_record_quiet hp.drained hp.closeCallbacks]
  exact hc.perish hp.suits

theorem Running.destroyConnection (h : Running (Doomed (k :: left)) s) (hnodup : (k :: left).Nodup) :
    ∃ s', s.destroyConnection k = .ok s' ∧ Running (Doomed left) s' := by
  have hnot : k ∉ left := (List.nodup_cons.mp hnodup).1
  unfold TcpServer.destroyConnection
  cases hk : s.accepted k with
  | none =>
    refine ⟨s, rfl, h.small, h.fresh, h.names, h.entries, h.absent, fun k' r' hk' => ?_⟩
    obtain ⟨st, hc, hd⟩ := h.each k' r' hk'
    have hne : k' ≠ k := by
      rintro rfl
      exact nomatch hk.symm.trans hk'
    exact ⟨st, hc, hd.drop hne⟩
  | some r =>
    obtain ⟨st, hc, hd⟩ := h.each k r hk
    have hothers : ∀ k' v r₁ st₁, k' ≠ k → Doomed (k :: left) k' v r₁ st₁ → Doomed left k' v r₁ st₁ :=
      fun _ _ _ _ hne hd => hd.drop hne
    have hhead : k ∈ k :: left := List.mem_cons_self
    cases st with
    | accepted destroyed =>
      obtain rfl : destroyed = false := Bool.eq_false_iff.mpr fun he => hd.mp he hhead
      simp only [if_neg (hc.home rfl)]
      exact ⟨_, rfl, h.touch hk (queue_touches hk hc.condemn_accepted) (iff_of_true rfl hnot) hothers⟩
    | up destroyed =>
      obtain ⟨hst, hdestroyed⟩ := hd
      obtain rfl : destroyed = false := Bool.eq_false_iff.mpr fun he => hdestroyed.mp he hhead
      by_cases hbase : r.loop = 0
      · obtain ⟨c, hdone, hperish⟩ := open_perished hc.conn hst
        have hrun := @onConnection_eq _ _ _ [(.connectDestroyed, 0)] hk TcpConnection.connectDestroyed
        rw [hdone, ok_bind, hbase] at hrun
        simp only [if_pos hbase]
        exact ⟨_, hrun, h.touch hk (perish_touches hc hperish) ⟨hnot, nofun⟩ hothers⟩
      · simp only [if_neg hbase]
        exact ⟨_, rfl, h.touch hk (queue_touches hk hc.condemn_up) ⟨hst, iff_of_true rfl hnot⟩ hothers⟩
    | closing => exact hd.elim
    | leaving => exact hd.elim
    | down destroyed => exact absurd hhead hd.1

theorem Running.doomed_call (h : Running (Doomed left) s) {call : Call}
    (he : s.uses (.call k call)) (hh : s.Harmless (.call k call)) :
    Yields (Running (Doomed left)) (· = Fault.lengthError) (s.step (.call k call)) := by
  obtain ⟨r, hk, hcall⟩ := he
  obtain ⟨st, hc, hd⟩ := h.each k r hk
  obtain ⟨hhalts, hreopens⟩ := hh r hk
  refine (call_steps hk hc hcall).mono fun s' hs' => ?_
  obtain ⟨c, hkeep, rfl⟩ := hs'
  refine h.touch hk (record_keep hc hkeep) (hd.keep hc hkeep hhalts fun hre hdown hst => ?_)
    fun _ _ _ _ _ => id
  subst hst
  exact hreopens hre hdown hc.awaited

theorem Running.doomed_poll (h : Running (Doomed left) s) {rv : Revents}
    (he : s.uses (.poll k rv)) :
    Yields (Running (Doomed left)) (· = Fault.lengthError) (s.step (.poll k rv)) := by
  obtain ⟨r, hk, hidle, -⟩ := he
  obtain ⟨st, hc, hd⟩ := h.each k r hk
  have hr : s.accepted k = some r := hk
  simp only [step, hr]
  exact h.touch hk (poll_touches hk hc hidle.1) hd fun _ _ _ _ _ => id

theorem Running.doomed_handle (h : Running (Doomed left) s) {read : Option Bytes} {w : WriteResult}
    (he : s.uses (.handle l read w)) (hh : s.Harmless (.handle l read w)) :
    Yields (Running (Doomed left)) (· = Fault.lengthError) (s.step (.handle l read w)) := by
  obtain ⟨-, hallowed⟩ := he
  cases hq : s.callbacks l with
  | nil =>
    rw [hq] at hallowed
    exact hallowed.elim
  | cons x rest =>
    obtain ⟨k, cb⟩ := x
    have hhead := (view_callback_self hq).1
    obtain ⟨r, st, hk, hc, hd⟩ := h.known ⟨l, .inr (.inl (by rw [hhead]; exact nofun))⟩
    obtain ⟨rfl, hpop⟩ := pop_callback hk hc hq
    have hopen : ¬cb.Closes read := hh (k, cb) (by rw [hq]; rfl)
    refine ((handle_steps hk hc hq hallowed).mono fun s' hs' => ?_).weaken fun f hf =>
      hf.resolve_right hopen
    obtain ⟨c, hrun, rfl⟩ := hs'
    have hkeep := hrun.resolve_right fun hcl => hopen hcl.1
    exact h.touch hk (hpop.trans (record_keep hpop.course hkeep))
      (hd.keep hc hkeep nofun nofun) fun _ _ _ _ _ => id

theorem Running.doomed_closing (h : Running (Doomed left) s) (l : LoopId) : s.closing l = none := by
  by_contra hne
  obtain ⟨k, hcl⟩ := Option.ne_none_iff_exists'.mp hne
  have hclosing : (s.view k).closing l = true := decide_eq_true hcl
  obtain ⟨r, st, -, hc, hd⟩ := h.known ⟨l, .inr (.inr hclosing)⟩
  obtain ⟨rfl, -⟩ := (hc.closing l).mp hclosing
  exact hd

theorem Running.doomed_removal (h : Running (Doomed left) s) {rest : List (Nat × Task)} :
    s.pendingFunctors l ≠ (k, .removeConnectionInLoop) :: rest := by
  intro hq
  have hhead := (view_pop_self hq).1
  obtain ⟨r, st, -, hc, hd⟩ := h.known ⟨l, .inl (by rw [hhead]; exact nofun)⟩
  obtain ⟨rfl, -, -⟩ := hc.removal hhead
  exact hd

theorem Running.doomed_functor (h : Running (Doomed left) s) {w : WriteResult}
    (he : s.uses (.functor l w)) :
    Yields (Running (Doomed left)) (· = Fault.lengthError) (s.step (.functor l w)) := by
  obtain ⟨-, hallowed⟩ := he
  cases hq : s.pendingFunctors l with
  | nil =>
    rw [hq] at hallowed
    exact hallowed.elim
  | cons x rest =>
    obtain ⟨k, t⟩ := x
    have hhead := (view_pop_self hq).1
    obtain ⟨r, st, hk, hc, hd⟩ := h.known ⟨l, .inl (by rw [hhead]; exact nofun)⟩
    cases t with
    | connectEstablished =>
      obtain ⟨destroyed, s', r', rfl, hstep, -, hst, htouch⟩ := establish_steps (w := w) hk hc hq
      rw [hstep]
      exact h.touch hk htouch ⟨hst, hd⟩ fun _ _ _ _ _ => id
    | removeConnectionInLoop => exact absurd hq h.doomed_removal
    | own f =>
      by_cases hf : f = .connectDestroyed
      · subst hf
        obtain ⟨hst, -, -⟩ := hc.destroy hhead
        obtain ⟨c, hdone, hperish, hnot⟩ : ∃ c, r.conn.connectDestroyed = .ok c ∧
            Perished r.conn c ∧ k ∉ left := by
          rcases hst with rfl | rfl
          · obtain ⟨c, hdone, hperish⟩ := open_perished hc.conn hd.1
            exact ⟨c, hdone, hperish, hd.2.mp rfl⟩
          · obtain ⟨c, hdone⟩ := TcpConnection.connectDestroyed_quiet hc.conn.sound hc.conn.state
              (hc.conn.registered trivial) (hd.2 rfl)
            exact ⟨c, hdone, down_perished hc.conn hdone, hd.1⟩
        obtain ⟨s', r', hstep, -, htouch⟩ := destroy_steps (w := w) hk hc hq hdone hperish
        rw [hstep]
        exact h.touch hk htouch ⟨hnot, nofun⟩ fun _ _ _ _ _ => id
      · obtain ⟨rfl, hpop⟩ := pop_functor hk hc hq hf
        refine (functor_steps hk hc hq hf hallowed).mono fun s' hs' => ?_
        obtain ⟨c, hrun, rfl⟩ := hs'
        have hkeep : r.conn.Keeps False False c := by
          refine hrun.resolve_right ?_
          rintro ⟨rfl, hfall⟩
          obtain ⟨destroyed, rfl⟩ := st.allows_open hc.conn.state hfall.up
          exact hc.calm (.inr hd.1) r.loop (by rw [hhead]; exact List.mem_cons_self)
        exact h.touch hk (hpop.trans (record_keep hpop.course hkeep))
          (hd.keep hc hkeep nofun nofun) fun _ _ _ _ _ => id

end TcpServer

namespace Teardown
open TcpServer

variable {t : Teardown} {s : TcpServer} {k : Nat} {r : ServerConnection} {st : Stage}
  {order : List Nat}

/-- The invariant of the destructor and of the loops behind it. -/
structure Sound (t : Teardown) : Prop where
  nodup : t.left.Nodup
  running : Running (Doomed t.left) t.server

theorem Sound.destroy (h : Sound t) : Yields Sound (· = Fault.lengthError) (t.step .destroy) := by
  obtain ⟨s, left⟩ := t
  cases left with
  | nil => exact h
  | cons k left =>
    obtain ⟨s', hstep, hs'⟩ := h.running.destroyConnection h.nodup
    simp only [step, hstep, ok_bind]
    exact ⟨h.nodup.of_cons, hs'⟩

/-- No member function of the server is to run any more. -/
theorem Sound.apart (h : Sound t) {e : ServerEvent} (he : t.server.uses e) :
    ¬t.server.CallsServer e := by
  cases e with
  | closeCallback l => exact fun _ => he (h.running.doomed_closing l)
  | functor l w =>
    intro hcalls
    cases hq : t.server.pendingFunctors l with
    | nil =>
      rw [CallsServer, hq] at hcalls
      exact nomatch hcalls
    | cons x rest =>
      obtain ⟨k, task⟩ := x
      rw [CallsServer, hq] at hcalls
      obtain rfl : task = .removeConnectionInLoop := Option.some.inj hcalls
      exact h.running.doomed_removal hq
  | newConnection _ _ _ => exact id
  | call _ _ => exact id
  | poll _ _ => exact id
  | handle _ _ _ => exact id

theorem Sound.server (h : Sound t) {e : ServerEvent} (he : t.enabled (.server e))
    (hh : t.server.Harmless e) : Yields Sound (· = Fault.lengthError) (t.step (.server e)) := by
  have hs : Yields (Running (Doomed t.left)) (· = Fault.lengthError) (t.server.step e) := by
    cases e with
    | newConnection _ _ _ => exact he.elim
    | call k call => exact h.running.doomed_call he.1 hh
    | poll k rv => exact h.running.doomed_poll he.1
    | handle l read w => exact h.running.doomed_handle he.1 hh
    | closeCallback l => exact absurd (h.running.doomed_closing l) he.1
    | functor l w => exact h.running.doomed_functor he.1
  have huses : t.server.uses e := by
    cases e with
    | newConnection _ _ _ => exact he.elim
    | _ => exact he.1
  rw [step, if_neg fun hc => h.apart huses hc.2]
  exact hs.bind fun s' hs' => ⟨h.nodup, hs'⟩

theorem Sound.step (h : Sound t) {e : TeardownEvent} (he : t.enabled e) (hh : t.Harmless e) :
    Yields Sound (· = Fault.lengthError) (t.step e) := by
  cases e with
  | destroy => exact h.destroy
  | server e => exact h.server he hh

/-- With nothing queued a connection of a destroyed server is gone. -/
theorem gone (hd : t.Drained) (hc : Course (t.server.view k) r st)
    (hp : Doomed t.left k (t.server.view k) r st) :
    ∃ destroyed, st = .down destroyed := by
  have hnot : k ∉ t.left := by
    rw [hd.1]
    exact List.not_mem_nil
  have hnone : st.tasks r.loop r.loop = [] := by
    rw [← hc.moves, View.moves, view]
    simp only [hd.2, tagged_nil, List.filter_nil]
  cases st with
  | accepted destroyed =>
    rw [Stage.tasks, place_self] at hnone
    cases hnone
  | up destroyed =>
    obtain rfl := hp.2.mpr hnot
    rw [Stage.tasks, place_self] at hnone
    cases hnone
  | closing => exact hp.elim
  | leaving => exact hp.elim
  | down destroyed => exact ⟨destroyed, rfl⟩

theorem Sound.down_once (h : Sound t) : DownOnce t where
  once := fun k r hk => by
    obtain ⟨st, hc, -⟩ := h.running.each k r hk
    rw [hc.conn.ups, hc.conn.downs]
    cases st with
    | accepted _ => exact ⟨Nat.le_refl 0, Nat.zero_le 1⟩
    | up _ => exact ⟨Nat.zero_le 1, Nat.le_refl 1⟩
    | _ => exact ⟨Nat.le_refl 1, Nat.le_refl 1⟩
  settled := fun hd k r hk => by
    obtain ⟨st, hc, hp⟩ := h.running.each k r hk
    obtain ⟨destroyed, rfl⟩ := gone hd hc hp
    exact ⟨hc.conn.ups, hc.conn.downs, hc.conn.state⟩

/-- From any state that a server reaches, if its destructor finds its connections ready and
nothing harmful happens to them afterwards, no assertion fails, and each goes down once. -/
theorem connections_go_down {name : Bytes} {ipPort : IpPort} {loops : Nat} {es : List ServerEvent}
    {events : List TeardownEvent}
    (hreach : TcpServer.serving.Reaches (fun _ _ => True) (.new name ipPort loops) es s)
    (hlists : s.Lists order) (hready : s.Ready) (h : machine.Legal Harmless ⟨s, order⟩ events) :
    Yields DownOnce (· = Fault.lengthError) (machine.run ⟨s, order⟩ events) := by
  have hsound : Sound ⟨s, order⟩ := ⟨hlists.nodup_iff.mpr (List.nodup_range.filter _),
    (reached_served hreach).doom hlists hready⟩
  exact (Machine.run_keeps (fun _ _ hs he hh => hs.step he hh) hsound h).mono fun t ht => ht.down_once

/-- A server with `loops` IO loops after a run. -/
def after (loops : Nat) (es : List ServerEvent) : TcpServer :=
  (serving.run (.new (ascii "echo") sampleAddress loops) es).toOption.getD
    (.new (ascii "echo") sampleAddress loops)

theorem after_reached {loops : Nat} {es : List ServerEvent}
    (hl : serving.Legal (fun _ _ => True) (.new (ascii "echo") sampleAddress loops) es)
    (hr : Yields (fun _ => True) (fun _ => False)
      (serving.run (.new (ascii "echo") sampleAddress loops) es)) :
    serving.Reaches (fun _ _ => True) (.new (ascii "echo") sampleAddress loops) es
      (after loops es) := by
  obtain ⟨s, hs, -⟩ := hr.returns
  refine ⟨hl, ?_⟩
  rw [after, hs]
  rfl

/-- The first connection is up and sends, the second one is not established yet. -/
def sampleServing : List ServerEvent :=
  [.newConnection true false 0, .functor 1 (.wrote 0), .newConnection false false 0,
    .call 1 (.send [1] (.wrote 1))]

/-- While the destructor is at work the first connection still gets a message. -/
def sampleDestroying : List TeardownEvent :=
  [.destroy, .server (.poll 1 ⟨true, false, false, false, false, false, false⟩),
    .server (.handle 1 (some [7]) (.wrote 0)), .server (.functor 1 (.wrote 0)), .destroy,
    .server (.functor 1 (.wrote 0)), .server (.functor 1 (.wrote 0)), .server (.functor 1 (.wrote 0))]

theorem connections_go_down_sample : Yields DownOnce (· = Fault.lengthError)
    (machine.run ⟨after 1 sampleServing, [2, 1]⟩ sampleDestroying) :=
  connections_go_down (after_reached (by decide +kernel) (by decide +kernel)) (by decide +kernel)
    (by decide +kernel) (by decide +kernel)

/-- A connection of the base loop that user code has shut down. -/
def halfClosed : List ServerEvent := [.newConnection false false 0, .call 1 .shutdown]

/-- `connectDestroyed` leaves a half-closed connection as it is, and `Channel::remove` finds its
channel enabled. -/
theorem half_closed_asserts :
    serving.Reaches (fun _ _ => True) (.new (ascii "echo") sampleAddress 0) halfClosed
        (after 0 halfClosed) ∧ (after 0 halfClosed).Lists [1] ∧
      machine.Legal (fun _ e => Drains e) ⟨after 0 halfClosed, [1]⟩ [.destroy] ∧
      Yields (fun _ => False) (· = Fault.assertion)
        (machine.run ⟨after 0 halfClosed, [1]⟩ [.destroy]) :=
  ⟨after_reached (by decide +kernel) (by decide +kernel), by decide +kernel, by decide +kernel,
    by decide +kernel⟩

end Teardown

end Muduo.Net
