import Muduo.Net.ConnectionStages
import Muduo.Net.ServerViews

namespace Muduo.Net
open Muduo.Lib

/-- The tasks that take a connection from one stage of its life to the next. -/
def Task.moves : Task → Bool
  | .connectEstablished | .removeConnectionInLoop | .own .connectDestroyed => true
  | .own _ => false

namespace TcpServer

/-- The stages of a connection: before `connectEstablished`, up, in the callbacks of `handleClose`,
with its removal queued, and down and out of `connections_`. A connection that is to be destroyed
has `connectDestroyed` in its loop. -/
inductive Stage
  | accepted (destroyed : Bool)
  | up (destroyed : Bool)
  | closing
  | leaving
  | down (destroyed : Bool)

def place (l : LoopId) (ts : List Task) (l' : LoopId) : List Task := if l' = l then ts else []

def toDestroy (destroyed : Bool) : List Task := if destroyed then [.own .connectDestroyed] else []

namespace Stage

/-- What is queued to move a connection of the loop `l` on. -/
def tasks (l : LoopId) : Stage → LoopId → List Task
  | accepted destroyed => place l (.connectEstablished :: toDestroy destroyed)
  | up destroyed => place l (toDestroy destroyed)
  | closing => place l []
  | leaving => place 0 [.removeConnectionInLoop]
  | down destroyed => place l (toDestroy destroyed)

def Allows : Stage → StateE → Prop
  | accepted _, state => state = .kConnecting
  | up _, state => state = .kConnected ∨ state = .kDisconnecting
  | _, state => state = .kDisconnected

def ups : Stage → Nat
  | accepted _ => 0
  | _ => 1

def downs : Stage → Nat
  | accepted _ | up _ => 0
  | _ => 1

/-- The poller has the channel. -/
def Registered : Stage → Prop
  | accepted _ | down false => False
  | _ => True

/-- `connections_` has the connection. -/
def Listed : Stage → Prop
  | down _ => False
  | _ => True

end Stage

/-- A connection in its stage. -/
structure Suits (c : TcpConnection) (st : Stage) : Prop where
  sound : c.Sound
  drained : c.pendingFunctors = []
  state : st.Allows c.state
  ups : c.log.ups = st.ups
  downs : c.log.downs = st.downs
  registered : st.Registered → c.channel.registered = true

def View.moves (v : View) (l : LoopId) : List Task := (v.queue l).filter Task.moves

/-- A connection and its part of the loops. -/
structure Course (v : View) (r : ServerConnection) (st : Stage) : Prop where
  moves : v.moves = st.tasks r.loop
  own : ∀ l f, .own f ∈ v.queue l → l = r.loop
  calm : r.conn.state = .kConnecting ∨ r.conn.state = .kConnected →
    ∀ l, .own .forceCloseInLoop ∉ v.queue l
  closing : ∀ l, v.closing l = true ↔ st = .closing ∧ l = r.loop
  callbacks : ∀ l, v.callbacks l ≠ [] → l = r.loop
  home : st.ups = 0 → r.loop ≠ 0
  conn : Suits r.conn st

variable {v v' : View} {r : ServerConnection} {st : Stage} {l : LoopId} {t : Task} {q ts : List Task}
  {c : TcpConnection} {hist : List (Milestone × LoopId)} {halts reopens : Prop}

@[simp] theorem place_self : place l ts l = ts := if_pos rfl

theorem place_ne {l' : LoopId} (h : l' ≠ l) : place l ts l' = [] := if_neg h

theorem place_nil (l l' : LoopId) : place l [] l' = [] := ite_self _

theorem moves_push (v : View) (l l' : LoopId) (ts : List Task) :
    (v.push l ts).moves l' = v.moves l' ++ place l (ts.filter Task.moves) l' := by
  by_cases hl : l' = l
  · rw [hl, View.moves, View.push_self, List.filter_append, place_self]
    rfl
  · rw [View.moves, View.push_ne hl, place_ne hl, List.append_nil]
    rfl

theorem moves_pop (hq : v.queue l = t :: q) (l' : LoopId) :
    v.moves l' = place l ([t].filter Task.moves) l' ++ (v.pop l q).moves l' := by
  by_cases hl : l' = l
  · rw [hl, View.moves, hq, View.moves, View.pop_self, place_self, ← List.filter_append]
    rfl
  · rw [View.moves, View.moves, View.pop_ne hl, place_ne hl, List.nil_append]

theorem own_moves {fs : List Functor} (h : ∀ f ∈ fs, f ≠ .connectDestroyed) :
    (fs.map Task.own).filter Task.moves = [] := by
  refine List.filter_eq_nil_iff.mpr fun t ht => ?_
  obtain ⟨f, hf, rfl⟩ := List.mem_map.mp ht
  cases f with
  | connectDestroyed => exact absurd rfl (h _ hf)
  | sendInLoop message => exact nofun
  | writeCompleteCallback => exact nofun
  | highWaterMarkCallback len => exact nofun
  | forceCloseInLoop => exact nofun

/-- Other functors change nothing in what is to come. -/
theorem moves_push_own {fs : List Functor} (h : ∀ f ∈ fs, f ≠ .connectDestroyed) :
    (v.push l (fs.map .own)).moves = v.moves := by
  refine funext fun l' => ?_
  rw [moves_push, own_moves h, place_nil, List.append_nil]

theorem Stage.allows_open {state : StateE} (h : st.Allows state)
    (hopen : state = .kConnected ∨ state = .kDisconnecting) : ∃ destroyed, st = .up destroyed := by
  cases st with
  | up destroyed => exact ⟨destroyed, rfl⟩
  | accepted destroyed => exact absurd h (by rcases hopen with rfl | rfl <;> exact nofun)
  | closing => exact absurd h (by rcases hopen with rfl | rfl <;> exact nofun)
  | leaving => exact absurd h (by rcases hopen with rfl | rfl <;> exact nofun)
  | down destroyed => exact absurd h (by rcases hopen with rfl | rfl <;> exact nofun)

theorem Suits.keep (h : Suits c st) {c' : TcpConnection} (hk : c.Keeps halts reopens c') :
    Suits { c' with pendingFunctors := [] } st := by
  obtain ⟨hups, hdowns, -⟩ := hk.log
  refine ⟨⟨hk.sound.input, hk.sound.output, hk.sound.channel⟩, rfl, ?_, hups.trans h.ups,
    hdowns.trans h.downs, fun hr => hk.registered (h.registered hr)⟩
  rcases hk.state with hst | ⟨-, hold, hnew⟩
  · change st.Allows c'.state
    rw [hst]
    exact h.state
  · have hallows := h.state
    rw [hold] at hallows
    obtain ⟨destroyed, rfl⟩ := st.allows_open hallows (.inl rfl)
    exact .inr hnew

/-- A member function that does not take the connection down. -/
theorem Course.keep (h : Course v r st) (hk : r.conn.Keeps halts reopens c) :
    Course (v.push r.loop (c.pendingFunctors.map .own))
      { r with conn := { c with pendingFunctors := [] }, history := hist } st := by
  have hqueued : ∀ f ∈ c.pendingFunctors, f ≠ .connectDestroyed ∧
      (f = .forceCloseInLoop → c.state = .kDisconnecting) := by
    intro f hf
    refine (hk.queued f hf).resolve_left ?_
    rw [h.conn.drained]
    exact nofun
  refine ⟨(moves_push_own fun f hf => (hqueued f hf).1).trans h.moves, fun l f hf => ?_,
    fun hup l hf => ?_, h.closing, h.callbacks, h.home, h.conn.keep hk⟩
  · cases push_mem hf with
    | inl hf => exact h.own l f hf
    | inr hf => exact hf.1
  · change c.state = _ ∨ c.state = _ at hup
    cases push_mem hf with
    | inl hf =>
      refine h.calm ?_ l hf
      rcases hk.state with hst | ⟨-, -, hst⟩
      · rw [hst] at hup
        exact hup
      · rw [hst] at hup
        exact (hup.elim nofun nofun)
    | inr hf =>
      obtain ⟨f, hmem, heq⟩ := List.mem_map.mp hf.2
      have hst := (hqueued f hmem).2 (Task.own.inj heq)
      rw [hst] at hup
      exact (hup.elim nofun nofun)

/-- `handleClose` up to `closeCallback_`. -/
theorem Course.fall (h : Course v r (.up false)) (hf : r.conn.Falls c) :
    Course { v with closing := Function.update v.closing r.loop true }
      { r with conn := { c with pendingFunctors := [] }, history := hist } .closing := by
  obtain ⟨hups, hdowns, -⟩ := hf.log
  have hdown : c.state = .kDisconnected := hf.down
  refine ⟨h.moves, h.own, fun hup => ?_, fun l => ?_, h.callbacks, nofun,
    ⟨⟨hf.sound.input, hf.sound.output, hf.sound.channel⟩, rfl, hdown, hups.trans h.conn.ups, ?_,
      fun _ => hf.registered⟩⟩
  · change c.state = _ ∨ c.state = _ at hup
    rw [hdown] at hup
    exact (hup.elim nofun nofun)
  · by_cases hl : l = r.loop
    · subst hl
      simp only [Function.update_self, and_true]
    · simp only [Function.update_of_ne hl, h.closing, reduceCtorEq, hl, and_false]
  · exact hdowns.trans (congrArg (· + 1) h.conn.downs)

/-- `closeCallback_` away from the base loop queues the removal. -/
theorem Course.leave (h : Course v r .closing) :
    Course { v.push 0 [.removeConnectionInLoop] with
      closing := Function.update v.closing r.loop false } r .leaving := by
  refine ⟨funext fun l => ?_, fun l f hf => ?_, fun hup l hf => ?_, fun l => ?_, h.callbacks,
    h.home, ⟨h.conn.sound, h.conn.drained, h.conn.state, h.conn.ups, h.conn.downs,
      h.conn.registered⟩⟩
  · change (v.push 0 _).moves l = _
    rw [moves_push, h.moves]
    exact congrArg (· ++ _) (place_nil r.loop l)
  · cases push_mem hf with
    | inl hf => exact h.own l f hf
    | inr hf => exact nomatch List.mem_singleton.mp hf.2
  · cases push_mem hf with
    | inl hf => exact h.calm hup l hf
    | inr hf => exact nomatch List.mem_singleton.mp hf.2
  · by_cases hl : l = r.loop
    · subst hl
      simp only [Function.update_self, Bool.false_eq_true, reduceCtorEq, false_and]
    · simp only [Function.update_of_ne hl, h.closing, hl, and_false]

/-- `removeConnectionInLoop` queues `connectDestroyed`; nothing else is to come. -/
theorem Course.erase (h : Course v r st) (hst : st = .closing ∨ st = .leaving)
    (hmoves : ∀ l, v'.moves l = []) (hqueue : ∀ l t, t ∈ v'.queue l → t ∈ v.queue l)
    (hcallbacks : v'.callbacks = v.callbacks) (hclosing : ∀ l, v'.closing l = false) :
    Course (v'.push r.loop [.own .connectDestroyed]) { r with history := hist } (.down true) := by
  have hdown : r.conn.state = .kDisconnected := by
    have hallows := h.conn.state
    rcases hst with rfl | rfl
    · exact hallows
    · exact hallows
  refine ⟨funext fun l => ?_, fun l f hf => ?_, fun hup => ?_, fun l => ?_, fun l hl => ?_, nofun,
    ⟨h.conn.sound, h.conn.drained, hdown, ?_, ?_, fun _ => h.conn.registered ?_⟩⟩
  · rw [moves_push, hmoves]
    rfl
  · cases push_mem hf with
    | inl hf => exact h.own l f (hqueue l _ hf)
    | inr hf => exact hf.1
  · change r.conn.state = _ ∨ r.conn.state = _ at hup
    rw [hdown] at hup
    exact hup.elim nofun nofun
  · change v'.closing l = true ↔ _
    rw [hclosing]
    exact iff_of_false nofun fun hc => nomatch hc.1
  · change v'.callbacks l ≠ [] at hl
    rw [hcallbacks] at hl
    exact h.callbacks l hl
  · rcases hst with rfl | rfl
    · exact h.conn.ups
    · exact h.conn.ups
  · rcases hst with rfl | rfl
    · exact h.conn.downs
    · exact h.conn.downs
  · rcases hst with rfl | rfl
    · trivial
    · trivial

/-- A task that moves the connection on is the first of those to come. -/
theorem Course.first (h : Course v r st) (hq : v.queue l = t :: q) (ht : t.moves = true) :
    st.tasks r.loop l = t :: (v.pop l q).moves l ∧
      ∀ l', l' ≠ l → (v.pop l q).moves l' = st.tasks r.loop l' := by
  have hfilter : [t].filter Task.moves = [t] := by
    rw [List.filter_cons_of_pos ht, List.filter_nil]
  refine ⟨?_, fun l' hl => ?_⟩
  · rw [← h.moves, moves_pop hq, hfilter, place_self]
    rfl
  · rw [← h.moves, moves_pop hq, place_ne hl, List.nil_append]

theorem Course.pop_own (h : Course v r st) (hq : v.queue l = t :: q) :
    ∀ l' f, .own f ∈ (v.pop l q).queue l' → l' = r.loop :=
  fun l' f hf => h.own l' f (pop_mem hq hf)

/-- What is to come next tells the stage. -/
theorem Stage.tasks_established {l₀ : LoopId} (h : st.tasks l₀ l = .connectEstablished :: ts) :
    ∃ destroyed, st = .accepted destroyed ∧ l = l₀ ∧ ts = toDestroy destroyed := by
  cases st with
  | accepted destroyed =>
    by_cases hl : l = l₀
    · rw [Stage.tasks, hl, place_self] at h
      exact ⟨destroyed, rfl, hl, (List.cons.inj h).2.symm⟩
    · exact nomatch (place_ne hl).symm.trans h
  | up destroyed => cases destroyed <;> simp [tasks, place, toDestroy, ite_eq_iff] at h
  | closing => simp [tasks, place] at h
  | leaving => simp [tasks, place, ite_eq_iff] at h
  | down destroyed => cases destroyed <;> simp [tasks, place, toDestroy, ite_eq_iff] at h

theorem Stage.tasks_removal {l₀ : LoopId} (h : st.tasks l₀ l = .removeConnectionInLoop :: ts) :
    st = .leaving ∧ l = 0 ∧ ts = [] := by
  cases st with
  | leaving =>
    by_cases hl : l = 0
    · rw [Stage.tasks, hl, place_self] at h
      exact ⟨rfl, hl, (List.cons.inj h).2.symm⟩
    · exact nomatch (place_ne hl).symm.trans h
  | accepted destroyed => simp [tasks, place, ite_eq_iff] at h
  | up destroyed => cases destroyed <;> simp [tasks, place, toDestroy, ite_eq_iff] at h
  | closing => simp [tasks, place] at h
  | down destroyed => cases destroyed <;> simp [tasks, place, toDestroy, ite_eq_iff] at h

theorem Stage.tasks_destroyed {l₀ : LoopId} (h : st.tasks l₀ l = .own .connectDestroyed :: ts) :
    (st = .up true ∨ st = .down true) ∧ l = l₀ ∧ ts = [] := by
  have hplace : ∀ destroyed, place l₀ (toDestroy destroyed) l = .own .connectDestroyed :: ts →
      destroyed = true ∧ l = l₀ ∧ ts = [] := by
    intro destroyed hp
    by_cases hl : l = l₀
    · rw [hl, place_self] at hp
      cases destroyed with
      | false => exact nomatch hp
      | true => exact ⟨rfl, hl, (List.cons.inj hp).2.symm⟩
    · exact nomatch (place_ne hl).symm.trans hp
  cases st with
  | up destroyed =>
    obtain ⟨rfl, hrest⟩ := hplace destroyed h
    exact ⟨.inl rfl, hrest⟩
  | down destroyed =>
    obtain ⟨rfl, hrest⟩ := hplace destroyed h
    exact ⟨.inr rfl, hrest⟩
  | accepted destroyed => simp [tasks, place, ite_eq_iff] at h
  | closing => simp [tasks, place] at h
  | leaving => simp [tasks, place, ite_eq_iff] at h

theorem Course.establish (h : Course v r st) (hq : v.queue l = .connectEstablished :: q) :
    ∃ destroyed, st = .accepted destroyed ∧ l = r.loop ∧ ∀ (c : TcpConnection) hist,
      Suits c (.up destroyed) →
        Course (v.pop l q) { r with conn := c, history := hist } (.up destroyed) := by
  obtain ⟨hself, hne⟩ := h.first hq rfl
  obtain ⟨destroyed, rfl, rfl, hrest⟩ := Stage.tasks_established hself
  refine ⟨destroyed, rfl, rfl, fun c hist hc => ?_⟩
  refine ⟨funext fun l => ?_, h.pop_own hq, fun _ l hf => ?_, fun l => ?_, h.callbacks, nofun, hc⟩
  · by_cases hl : l = r.loop
    · rw [hl, hrest, Stage.tasks, place_self]
    · rw [hne l hl, Stage.tasks, Stage.tasks, place_ne hl, place_ne hl]
  · exact h.calm (.inl h.conn.state) l (pop_mem hq hf)
  · exact (h.closing l).trans (iff_of_false (fun hc => nomatch hc.1) fun hc => nomatch hc.1)

/-- The removal has been taken out of the base loop. -/
theorem Course.removal (h : Course v r st) (hq : v.queue l = .removeConnectionInLoop :: q) :
    st = .leaving ∧ l = 0 ∧ ∀ l', (v.pop l q).moves l' = [] := by
  obtain ⟨hself, hne⟩ := h.first hq rfl
  obtain ⟨rfl, rfl, hrest⟩ := Stage.tasks_removal hself
  refine ⟨rfl, rfl, fun l' => ?_⟩
  by_cases hl : l' = 0
  · rw [hl]
    exact hrest
  · rw [hne l' hl, Stage.tasks, place_ne hl]

/-- `connectDestroyed` has been taken out of the loop. -/
theorem Course.destroy (h : Course v r st) (hq : v.queue l = .own .connectDestroyed :: q) :
    (st = .up true ∨ st = .down true) ∧ l = r.loop ∧ ∀ (c : TcpConnection) hist,
      Suits c (.down false) →
        Course (v.pop l q) { r with conn := c, history := hist } (.down false) := by
  obtain ⟨hself, hne⟩ := h.first hq rfl
  obtain ⟨hst, rfl, hrest⟩ := Stage.tasks_destroyed hself
  refine ⟨hst, rfl, fun c hist hc => ?_⟩
  have hdown : c.state = .kDisconnected := hc.state
  refine ⟨funext fun l => ?_, h.pop_own hq, fun hup => ?_, fun l => ?_, h.callbacks, nofun, hc⟩
  · by_cases hl : l = r.loop
    · rw [hl, hrest]
      exact (place_nil ..).symm
    · rw [hne l hl]
      rcases hst with rfl | rfl
      · exact (place_ne hl).trans (place_ne hl).symm
      · exact (place_ne hl).trans (place_ne hl).symm
  · change c.state = _ ∨ c.state = _ at hup
    rw [hdown] at hup
    exact hup.elim nofun nofun
  · refine (h.closing l).trans (iff_of_false (fun hc => ?_) fun hc => nomatch hc.1)
    rcases hst with rfl | rfl
    · exact nomatch hc.1
    · exact nomatch hc.1

/-- Another functor of the connection has been taken out of its loop. -/
theorem Course.next {f : Functor} (h : Course v r st) (hq : v.queue l = .own f :: q)
    (hf : f ≠ .connectDestroyed) : l = r.loop ∧ Course (v.pop l q) r st := by
  have hother : ∀ g ∈ [f], g ≠ .connectDestroyed := fun g hg => by
    rw [List.mem_singleton.mp hg]
    exact hf
  have hnone : [Task.own f].filter Task.moves = [] := own_moves hother
  refine ⟨h.own l f (by rw [hq]; exact List.mem_cons_self), funext fun l' => ?_, h.pop_own hq,
    fun hup l hf => h.calm hup l (pop_mem hq hf), h.closing, h.callbacks, h.home, h.conn⟩
  have hpop := moves_pop hq l'
  rw [hnone, place_nil, List.nil_append] at hpop
  rw [← hpop, h.moves]

/-- What the poller reports, or a callback less to make. -/
theorem Course.with_callbacks (h : Course v r st) {callbacks : LoopId → List Channel.Callback}
    (hcallbacks : ∀ l, callbacks l ≠ [] → l = r.loop) : Course { v with callbacks } r st :=
  ⟨h.moves, h.own, h.calm, h.closing, hcallbacks, h.home, h.conn⟩

/-- `~TcpServer` queues `connectDestroyed`. -/
theorem Course.push_destroy {st' : Stage} (h : Course v r st)
    (htasks : ∀ l, st'.tasks r.loop l = st.tasks r.loop l ++ place r.loop [.own .connectDestroyed] l)
    (hclosing : st ≠ .closing ∧ st' ≠ .closing) (hhome : st'.ups = 0 → r.loop ≠ 0)
    (hconn : Suits r.conn st') : Course (v.push r.loop [.own .connectDestroyed]) r st' := by
  refine ⟨funext fun l => ?_, fun l f hf => ?_, fun hup l hf => ?_, fun l => ?_, h.callbacks,
    hhome, hconn⟩
  · rw [moves_push, h.moves, htasks]
    rfl
  · cases push_mem hf with
    | inl hf => exact h.own l f hf
    | inr hf => exact hf.1
  · cases push_mem hf with
    | inl hf => exact h.calm hup l hf
    | inr hf => exact nomatch List.mem_singleton.mp hf.2
  · exact (h.closing l).trans (iff_of_false (fun hc => hclosing.1 hc.1) fun hc => hclosing.2 hc.1)

theorem place_append (l l' : LoopId) (ts ts' : List Task) :
    place l (ts ++ ts') l' = place l ts l' ++ place l ts' l' := by
  by_cases hl : l' = l
  · rw [hl, place_self, place_self, place_self]
  · rw [place_ne hl, place_ne hl, place_ne hl]
    rfl

theorem Course.condemn_accepted (h : Course v r (.accepted false)) :
    Course (v.push r.loop [.own .connectDestroyed]) r (.accepted true) :=
  h.push_destroy (fun l => place_append r.loop l [.connectEstablished] [.own .connectDestroyed])
    ⟨nofun, nofun⟩ h.home ⟨h.conn.sound, h.conn.drained, h.conn.state, h.conn.ups, h.conn.downs, nofun⟩

theorem Course.condemn_up (h : Course v r (.up false)) :
    Course (v.push r.loop [.own .connectDestroyed]) r (.up true) :=
  h.push_destroy (fun l => place_append r.loop l [] [.own .connectDestroyed]) ⟨nofun, nofun⟩ nofun
    ⟨h.conn.sound, h.conn.drained, h.conn.state, h.conn.ups, h.conn.downs, h.conn.registered⟩

/-- `~TcpServer` destroys a connection of the base loop at once. -/
theorem Course.perish (h : Course v r (.up false)) (hc : Suits c (.down false)) :
    Course v { r with conn := c, history := hist } (.down false) := by
  have hdown : c.state = .kDisconnected := hc.state
  refine ⟨h.moves, h.own, fun hup => ?_, fun l => ?_, h.callbacks, nofun, hc⟩
  · change c.state = _ ∨ c.state = _ at hup
    rw [hdown] at hup
    exact hup.elim nofun nofun
  · exact (h.closing l).trans (iff_of_false (fun hc => nomatch hc.1) fun hc => nomatch hc.1)

/-- A connection that was accepted, and is established on its loop later. -/
theorem Course.accept {name : Bytes} (hempty : ∀ l, v.queue l = [] ∧ v.callbacks l = [] ∧
    v.closing l = false) (hl : l ≠ 0) (hc : Suits c (.accepted false)) :
    Course (v.push l [.connectEstablished]) ⟨name, l, c, hist⟩ (.accepted false) := by
  refine ⟨funext fun l' => ?_, fun l' f hf => ?_, fun hup l' hf => ?_, fun l' => ?_,
    fun l' hne => absurd (hempty l').2.1 hne, fun _ => hl, hc⟩
  · rw [moves_push, View.moves, (hempty l').1]
    rfl
  · cases push_mem hf with
    | inl hf =>
      rw [(hempty l').1] at hf
      exact nomatch hf
    | inr hf => exact nomatch List.mem_singleton.mp hf.2
  · cases push_mem hf with
    | inl hf =>
      rw [(hempty l').1] at hf
      exact nomatch hf
    | inr hf => exact nomatch List.mem_singleton.mp hf.2
  · change v.closing l' = true ↔ _
    rw [(hempty l').2.2]
    exact iff_of_false nofun fun hc => nomatch hc.1

/-- A connection of the base loop, which is established at once. -/
theorem Course.appear {name : Bytes} (hempty : ∀ l, v.queue l = [] ∧ v.callbacks l = [] ∧
    v.closing l = false) (hc : Suits c (.up false)) :
    Course v ⟨name, l, c, hist⟩ (.up false) := by
  refine ⟨funext fun l' => ?_, fun l' f hf => ?_, fun hup l' hf => ?_, fun l' => ?_,
    fun l' hne => absurd (hempty l').2.1 hne, nofun, hc⟩
  · rw [View.moves, (hempty l').1]
    exact (place_nil ..).symm
  · rw [(hempty l').1] at hf
    exact nomatch hf
  · rw [(hempty l').1] at hf
    exact nomatch hf
  · rw [(hempty l').2.2]
    exact iff_of_false nofun fun hc => nomatch hc.1

end TcpServer

end Muduo.Net
