import Muduo.Net.ServerCourses

namespace Muduo.Net.TcpServer
open Muduo.Lib

variable {s s' s₁ : TcpServer} {k k' : Nat} {l : LoopId} {r r' : ServerConnection} {st : Stage}
  {c : TcpConnection} {e : ServerEvent}

/-- Nothing is destroyed before `~TcpServer` runs but what is out of `connections_`. -/
def Stage.Free : Stage → Prop
  | .accepted destroyed | .up destroyed => destroyed = false
  | _ => True

def Served (_ : Nat) (v : View) (_ : ServerConnection) (st : Stage) : Prop :=
  (v.listed ↔ st.Listed) ∧ st.Free

theorem Stage.Free.falls (h : st.Free) {state : StateE} (ha : st.Allows state)
    (hup : state = .kConnected ∨ state = .kDisconnecting) : st = .up false := by
  obtain ⟨destroyed, rfl⟩ := st.allows_open ha hup
  exact congrArg Stage.up h

/-- The stage has changed, and `connections_` has not. -/
theorem Served.pass {st' : Stage} (h : Served k (s.view k) r st) (ht : Touches s s' k r r' st')
    (hsame : s'.connections = s.connections) (hlisted : st.Listed ↔ st'.Listed) (hfree : st'.Free) :
    Served k (s'.view k) r' st' := by
  have hview : (s'.view k).listed ↔ (s.view k).listed := by
    change s'.connections (s'.connName k) = some k ↔ s.connections (s.connName k) = some k
    rw [hsame, connName, connName, ht.name, ht.ipPort]
  exact ⟨hview.trans (h.1.trans hlisted), hfree⟩

/-- A member function that has run, after what the loop took out to run it. -/
theorem Running.serve_record (h : Running Served s) (hk : s.accepted k = some r)
    (hpop : Touches s s₁ k r r st) (hsame : s₁.connections = s.connections)
    (hp : Served k (s.view k) r st) (hidle : s₁.closing r.loop = none)
    (hrun : r.conn.Keeps False False c ∨ r.conn.Falls c) :
    Running Served (s₁.record r.loop k r [] c) := by
  have hrecord : (s₁.record r.loop k r [] c).connections = s.connections := hsame
  rcases hrun with hkeep | hfall
  · have htouch := hpop.trans (@record_keep _ _ _ _ _ [] _ _ hpop.course hkeep)
    exact h.touch hk htouch (hp.pass htouch hrecord .rfl hp.2) fun _ _ _ _ _ => id
  · obtain rfl := hp.2.falls hpop.course.conn.state hfall.up
    have htouch := hpop.trans (@record_fall _ _ _ _ [] hpop.course hfall hidle)
    exact h.touch hk htouch (hp.pass htouch hrecord (iff_of_true trivial trivial) trivial)
      fun _ _ _ _ _ => id

theorem Running.serve_call (h : Running Served s) {call : Call} (he : s.uses (.call k call))
    (hok : s.step (.call k call) = .ok s') : Running Served s' := by
  obtain ⟨r, hk, hcall⟩ := he
  obtain ⟨st, hc, hp⟩ := h.each k r hk
  obtain ⟨c, hkeep, rfl⟩ := (call_steps hk hc hcall).of_ok hok
  exact h.touch hk (record_keep hc hkeep) hp fun _ _ _ _ _ => id

theorem Running.serve_poll (h : Running Served s) {rv : Revents} (he : s.uses (.poll k rv))
    (hok : s.step (.poll k rv) = .ok s') : Running Served s' := by
  obtain ⟨r, hk, hidle, -⟩ := he
  obtain ⟨st, hc, hp⟩ := h.each k r hk
  have hr : s.accepted k = some r := hk
  simp only [step, hr] at hok
  cases hok
  exact h.touch hk (poll_touches hk hc hidle.1) hp fun _ _ _ _ _ => id

theorem Running.serve_handle (h : Running Served s) {read : Option Bytes} {w : WriteResult}
    (he : s.uses (.handle l read w)) (hok : s.step (.handle l read w) = .ok s') :
    Running Served s' := by
  obtain ⟨hidle, hallowed⟩ := he
  cases hq : s.callbacks l with
  | nil =>
    rw [hq] at hallowed
    exact hallowed.elim
  | cons x rest =>
    obtain ⟨k, cb⟩ := x
    have hhead := (view_callback_self hq).1
    obtain ⟨r, st, hk, hc, hp⟩ := h.known ⟨l, .inr (.inl (by rw [hhead]; exact nofun))⟩
    obtain ⟨rfl, hpop⟩ := pop_callback hk hc hq
    obtain ⟨c, hrun, rfl⟩ := (handle_steps hk hc hq hallowed).of_ok hok
    exact h.serve_record hk hpop rfl hp hidle (hrun.imp_right And.right)

/-- `removeConnectionInLoop` on the base loop, after what the loop took out to run it. -/
theorem Running.serve_erase (s₁ : TcpServer) (h : Running Served s) (hk : s.accepted k = some r)
    (hc : Course (s.view k) r st) (hst : st = .closing ∨ st = .leaving) (hp : Served k (s.view k) r st)
    (hconst : s₁.name = s.name ∧ s₁.ipPort = s.ipPort ∧ s₁.nextConnId = s.nextConnId)
    (haccepted : s₁.accepted = s.accepted) (hconnections : s₁.connections = s.connections)
    (hothers : ∀ k', k' ≠ k → s₁.view k' = s.view k') (hmoves : ∀ l, (s₁.view k).moves l = [])
    (hqueue : ∀ l t, t ∈ (s₁.view k).queue l → t ∈ (s.view k).queue l)
    (hcallbacks : (s₁.view k).callbacks = (s.view k).callbacks)
    (hclosing : ∀ l, (s₁.view k).closing l = false)
    (hok : s₁.removeConnectionInLoop 0 k = .ok s') : Running Served s' := by
  have hlisted : (s.view k).listed := by
    refine hp.1.mpr ?_
    rcases hst with rfl | rfl
    · trivial
    · trivial
  have hcourse : Course (View.push { s₁.view k with listed := False } r.loop [.own .connectDestroyed])
      { r with history := r.history ++ [(.erased, 0)] } (.down true) :=
    hc.erase hst hmoves hqueue hcallbacks hclosing
  obtain ⟨herase, hrunning⟩ := Accounts.erase h hk hconst haccepted hconnections hothers hlisted
    ⟨.down true, hcourse, iff_of_false id id, trivial⟩ fun _ _ _ _ => id
  obtain rfl := Except.ok.inj (herase.symm.trans hok)
  exact hrunning

theorem Running.serve_closeCallback (h : Running Served s) (he : s.uses (.closeCallback l))
    (hok : s.step (.closeCallback l) = .ok s') : Running Served s' := by
  obtain ⟨k, hcl⟩ := Option.ne_none_iff_exists'.mp he
  have hclosing : (s.view k).closing l = true := decide_eq_true hcl
  obtain ⟨r, st, hk, hc, hp⟩ := h.known ⟨l, .inr (.inr hclosing)⟩
  obtain ⟨rfl, rfl⟩ := (hc.closing l).mp hclosing
  have hview := view_closing_self (s := s) (k := k) (l := r.loop)
  have hothers := fun k' (hne : k' ≠ k) => view_closing_ne hcl hne
  have hnone : ∀ l', (view { s with closing := Function.update s.closing r.loop none } k).closing l' =
      false := by
    intro l'
    rw [hview]
    by_cases hl : l' = r.loop
    · subst hl
      simp only [Function.update_self]
    · simp only [Function.update_of_ne hl]
      exact Bool.eq_false_iff.mpr fun hc' => hl ((hc.closing l').mp hc').2
  simp only [step, hcl, removeConnection] at hok
  split at hok
  · rename_i hbase
    rw [hbase] at hok
    refine Running.serve_erase { s with closing := Function.update s.closing r.loop none } h hk hc
      (.inl rfl) hp ⟨rfl, rfl, rfl⟩ rfl rfl hothers (fun l' => ?_) (fun l' t ht => ?_) ?_ hnone
      (by rw [hbase]; exact hok)
    · rw [hview]
      change (s.view k).moves l' = []
      rw [hc.moves]
      exact place_nil ..
    · rw [hview] at ht
      exact ht
    · rw [hview]
  · cases hok
    have htouch : Touches s (queueInLoop { s with
        closing := Function.update s.closing r.loop none } 0 (k, .removeConnectionInLoop)) k r r
        .leaving := by
      refine .same_record hk rfl rfl rfl rfl rfl (fun k' hne => ?_) ?_
      · rw [view_queueInLoop_ne hne, hothers k' hne]
      · rw [view_queueInLoop_self, hview]
        exact hc.leave
    refine h.touch hk htouch ?_ fun _ _ _ _ _ => id
    rw [view_queueInLoop_self, hview]
    exact ⟨hp.1, trivial⟩

theorem Running.serve_functor (h : Running Served s) {w : WriteResult}
    (he : s.uses (.functor l w)) (hok : s.step (.functor l w) = .ok s') : Running Served s' := by
  obtain ⟨hidle, hallowed⟩ := he
  cases hq : s.pendingFunctors l with
  | nil =>
    rw [hq] at hallowed
    exact hallowed.elim
  | cons x rest =>
    obtain ⟨k, t⟩ := x
    obtain ⟨hhead, hview⟩ := view_pop_self hq
    obtain ⟨r, st, hk, hc, hp⟩ := h.known ⟨l, .inl (by rw [hhead]; exact (by simp))⟩
    cases t with
    | connectEstablished =>
      obtain ⟨destroyed, s₂, r', rfl, hstep, hsame, -, htouch⟩ := establish_steps (w := w) hk hc hq
      obtain rfl := Except.ok.inj (hstep.symm.trans hok)
      exact h.touch hk htouch (hp.pass htouch hsame (iff_of_true trivial trivial) hp.2)
        fun _ _ _ _ _ => id
    | removeConnectionInLoop =>
      obtain ⟨rfl, rfl, hmoves⟩ := hc.removal hhead
      simp only [step, hq] at hok
      refine Running.serve_erase
        { s with pendingFunctors := Function.update s.pendingFunctors 0 rest } h hk hc (.inr rfl) hp
        ⟨rfl, rfl, rfl⟩ rfl rfl (fun k' hne => view_pop_ne hq hne) (fun l' => ?_)
        (fun l' t ht => ?_) (by rw [hview]; rfl) (fun l' => ?_) hok
      · rw [hview]
        exact hmoves l'
      · rw [hview] at ht
        exact pop_mem hhead ht
      · rw [hview]
        exact Bool.eq_false_iff.mpr fun hcl => absurd ((hc.closing l').mp hcl).1 (by simp)
    | own f =>
      by_cases hf : f = .connectDestroyed
      · subst hf
        obtain ⟨hst, rfl, -⟩ := hc.destroy hhead
        obtain ⟨c, hdone⟩ := destroy_ran hk hq hok
        rcases hst with rfl | rfl
        · cases (hp.2 : true = false)
        · obtain ⟨s₂, r', hstep, hsame, htouch⟩ := destroy_steps (w := w) hk hc hq hdone
            (down_perished hc.conn hdone)
          obtain rfl := Except.ok.inj (hstep.symm.trans hok)
          exact h.touch hk htouch (hp.pass htouch hsame (iff_of_false id id) trivial)
            fun _ _ _ _ _ => id
      · obtain ⟨rfl, hpop⟩ := pop_functor hk hc hq hf
        obtain ⟨c, hrun, rfl⟩ := (functor_steps hk hc hq hf hallowed).of_ok hok
        exact h.serve_record hk hpop rfl hp hidle.2 (hrun.imp_right And.right)

theorem new_suits {writeComplete highWater : Bool} {mark : Nat}
    (h : TcpConnection.new writeComplete highWater mark = .ok c) : Suits c (.accepted false) := by
  simp only [TcpConnection.new, Buffer.new_initial, ok_bind, Except.ok.injEq] at h
  subst h
  exact ⟨⟨TcpConnection.initial_holds.1, TcpConnection.initial_holds.1, Channel.new_consistent⟩,
    rfl, rfl, rfl, rfl, fun h => by cases h⟩

theorem Running.serve_newConnection (h : Running Served s) {writeComplete highWater : Bool}
    {mark : Nat} (he : s.uses (.newConnection writeComplete highWater mark))
    (hok : s.step (.newConnection writeComplete highWater mark) = .ok s') : Running Served s' := by
  obtain ⟨c, hc, -, -⟩ := TcpConnection.new_fresh writeComplete highWater mark
  have hsuits := new_suits hc
  have habsent := h.absent s.nextConnId (h.fresh _ (Nat.le_refl _))
  obtain ⟨ioLoop, next, hstep⟩ := newConnection_eq (s := s) hc
  have hk := joined_accepted (s := s) ioLoop next c
  have hlisted := joined_listed (s := s) ioLoop next c
  rw [TcpServer.step, hstep] at hok
  split at hok
  · rename_i hbase
    subst hbase
    obtain ⟨c', heq, hp, -, hcb, hup⟩ := established_suits hsuits
    have hrun := @onConnection_eq _ _ _ [(.connectEstablished, 0)] hk TcpConnection.connectEstablished
    rw [heq, ok_bind] at hrun
    obtain rfl := Except.ok.inj (hrun.symm.trans hok)
    refine Accounts.add h he.2 ⟨rfl, rfl, rfl⟩ (Function.update_idem ..) rfl rfl (fun k hne => ?_)
      ⟨.up false, ?_⟩
    · rw [view_record_ne hne (.inl hcb)]
      exact ⟨rfl, rfl, rfl⟩
    · rw [view_record_quiet hp hcb]
      exact ⟨.appear habsent hup, iff_of_true hlisted trivial, rfl⟩
  · rename_i hbase
    cases hok
    refine Accounts.add h he.2 ⟨rfl, rfl, rfl⟩ rfl rfl rfl (fun k hne => ?_) ⟨.accepted false, ?_⟩
    · rw [view_queueInLoop_ne hne]
      exact ⟨rfl, rfl, rfl⟩
    · rw [view_queueInLoop_self]
      exact ⟨.accept habsent hbase hsuits, iff_of_true hlisted trivial, rfl⟩

theorem Running.serve {e : ServerEvent} (h : Running Served s) (he : s.uses e)
    (hok : s.step e = .ok s') : Running Served s' := by
  cases e with
  | newConnection writeComplete highWater mark => exact h.serve_newConnection he hok
  | call k call => exact h.serve_call he hok
  | poll k rv => exact h.serve_poll he hok
  | handle l read w => exact h.serve_handle he hok
  | closeCallback l => exact h.serve_closeCallback he hok
  | functor l w => exact h.serve_functor he hok

/-- In every state that a server reaches its connections are on their courses, and none is to be
destroyed but those that are out of `connections_`. -/
theorem reached_served {name : Bytes} {ipPort : IpPort} {loops : Nat} {es : List ServerEvent}
    (h : serving.Reaches (fun _ _ => True) (new name ipPort loops) es s) : Running Served s := by
  have hstep : ∀ (s : TcpServer) e, Running Served s → serving.enabled s e → True →
      Yields (Running Served) (fun _ => True) (serving.step s e) := by
    intro s e hs he _
    cases hok : serving.step s e with
    | ok s' => exact hs.serve he hok
    | error f => trivial
  exact (Machine.run_keeps hstep (.new name ipPort loops) h.1).of_ok h.2

end Muduo.Net.TcpServer
