import Muduo.Net.TcpConnection

namespace Muduo.Net
open Muduo.Lib

/-- The order in which a connection is to go through its states. -/
def StateE.rank : StateE → Nat
  | .kConnecting => 0
  | .kConnected => 1
  | .kDisconnecting => 2
  | .kDisconnected => 3

/-- Which read of `state_` comes next in `state_ == kConnected || state_ == kDisconnecting`. -/
inductive Check
  | first
  | second
  deriving DecidableEq, Repr

/-- Where a thread is in `forceClose` or, with a delay, in `forceCloseWithDelay`: at its
condition, before its `setState`, or before it queues or schedules what follows. -/
inductive ForceClosing
  | outside
  | checking (delay : Bool) (c : Check)
  | passed (delay : Bool)
  | set (delay : Bool)
  deriving DecidableEq, Repr

/-- Where the loop thread is: each point but `idle` stands before one access of `state_`, or
before the callbacks at the end of `handleClose`. -/
inductive LoopPoint
  | idle
  | asserting
  | establishing
  | forceCloseInLoop (c : Check)
  | handleClose (c : Check)
  | closing
  | callbacks
  | connectDestroyed
  | destroying
  | forceClose (p : ForceClosing)
  deriving DecidableEq, Repr

def LoopPoint.ofForceClosing : ForceClosing → LoopPoint
  | .outside => .idle
  | p => .forceClose p

inductive LoopFunctor
  | connectEstablished
  | forceCloseInLoop
  | connectDestroyed
  deriving DecidableEq, Repr

/-- A connection between its loop thread and other threads. `states` are the values that
`state_` has had, `watching` tells whether the loop watches the channel, and `timers` counts
the timers of `forceCloseWithDelay` that have not run. -/
structure StateRace where
  state : StateE
  states : List StateE
  watching : Bool
  loop : LoopPoint
  threads : Nat → ForceClosing
  pendingFunctors : List LoopFunctor
  timers : Nat
  closeCallbacks : Nat

namespace StateRace

/-- A new connection, with its `connectEstablished` in the loop. -/
def initial : StateRace where
  state := .kConnecting
  states := [.kConnecting]
  watching := false
  loop := .idle
  threads _ := .outside
  pendingFunctors := [.connectEstablished]
  timers := 0
  closeCallbacks := 0

variable (s : StateRace)

def setState (st : StateE) : StateRace := { s with state := st, states := s.states ++ [st] }

def queueInLoop (f : LoopFunctor) : StateRace :=
  { s with pendingFunctors := s.pendingFunctors ++ [f] }

/-- The next step of a thread in `forceClose` or `forceCloseWithDelay`. -/
def forceCloseStep : ForceClosing → StateRace × ForceClosing
  | .outside => (s, .outside)
  | .checking delay .first =>
    (s, if s.state = .kConnected then .passed delay else .checking delay .second)
  | .checking delay .second =>
    (s, if s.state = .kDisconnecting then .passed delay else .outside)
  | .passed delay => (s.setState .kDisconnecting, .set delay)
  | .set false => (s.queueInLoop .forceCloseInLoop, .outside)
  | .set true => ({ s with timers := s.timers + 1 }, .outside)

/-- The next step of the loop thread. -/
def loopStep : Except Fault StateRace :=
  match s.loop with
  | .idle => .ok s
  | .asserting => do
    check (s.state = .kConnecting)
    .ok { s with loop := .establishing }
  | .establishing => .ok { s.setState .kConnected with watching := true, loop := .idle }
  | .forceCloseInLoop .first =>
    let loop := if s.state = .kConnected then .handleClose .first else .forceCloseInLoop .second
    .ok { s with loop := loop }
  | .forceCloseInLoop .second =>
    let loop := if s.state = .kDisconnecting then .handleClose .first else .idle
    .ok { s with loop := loop }
  | .handleClose .first =>
    let loop := if s.state = .kConnected then .closing else .handleClose .second
    .ok { s with loop := loop }
  | .handleClose .second => do
    check (s.state = .kDisconnecting)
    .ok { s with loop := .closing }
  | .closing => .ok { s.setState .kDisconnected with watching := false, loop := .callbacks }
  | .callbacks => .ok { s with closeCallbacks := s.closeCallbacks + 1, loop := .idle }
  | .connectDestroyed =>
    .ok { s with loop := if s.state = .kConnected then .destroying else .idle }
  | .destroying => .ok { s.setState .kDisconnected with watching := false, loop := .idle }
  | .forceClose p =>
    let (s, p) := s.forceCloseStep p
    .ok { s with loop := .ofForceClosing p }

def startFunctor : LoopFunctor → LoopPoint
  | .connectEstablished => .asserting
  | .forceCloseInLoop => .forceCloseInLoop .first
  | .connectDestroyed => .connectDestroyed

/-- `call` and `callInLoop` start a `forceClose` or a `forceCloseWithDelay`, `thread` and
`loop` are the next steps; `handleRead` is given what `read(2)` returned. -/
inductive Event
  | call (i : Nat) (delay : Bool)
  | thread (i : Nat)
  | callInLoop (delay : Bool)
  | timer
  | handleRead (n : Int)
  | handleClose
  | functor
  | queueConnectDestroyed
  | loop
  deriving DecidableEq, Repr

def enabled : Event → Prop
  | .call i _ => s.threads i = .outside
  | .thread i => s.threads i ≠ .outside
  | .callInLoop _ => s.loop = .idle
  | .timer => s.loop = .idle ∧ 0 < s.timers
  | .handleRead _ | .handleClose => s.loop = .idle ∧ s.watching = true
  | .functor => s.loop = .idle ∧ s.pendingFunctors ≠ []
  | .queueConnectDestroyed => True
  | .loop => s.loop ≠ .idle

def step : Event → Except Fault StateRace
  | .call i delay => .ok { s with threads := Function.update s.threads i (.checking delay .first) }
  | .thread i =>
    let (t, p) := s.forceCloseStep (s.threads i)
    .ok { t with threads := Function.update t.threads i p }
  | .callInLoop delay => .ok { s with loop := .forceClose (.checking delay .first) }
  | .timer =>
    .ok { s with timers := s.timers - 1, loop := .forceClose (.checking false .first) }
  | .handleRead n => .ok (if n = 0 then { s with loop := .handleClose .first } else s)
  | .handleClose => .ok { s with loop := .handleClose .first }
  | .functor =>
    match s.pendingFunctors with
    | [] => .ok s
    | f :: fs => .ok { s with pendingFunctors := fs, loop := startFunctor f }
  | .queueConnectDestroyed => .ok (s.queueInLoop .connectDestroyed)
  | .loop => s.loopStep

def machine : Machine StateRace Event Fault := ⟨enabled, step⟩

instance : ∀ e, Decidable (s.enabled e)
  | .call _ _ | .callInLoop _ => inferInstanceAs (Decidable (_ = _))
  | .thread _ | .loop => inferInstanceAs (Decidable (_ ≠ _))
  | .timer | .handleRead _ | .handleClose | .functor => inferInstanceAs (Decidable (_ ∧ _))
  | .queueConnectDestroyed => isTrue trivial

instance (s : StateRace) (e : Event) : Decidable (machine.enabled s e) :=
  inferInstanceAs (Decidable (s.enabled e))

/-- What is to hold of a connection at any time. -/
structure Forward (s : StateRace) : Prop where
  forward : s.states.Pairwise fun a b => a.rank ≤ b.rank
  final : s.states.Pairwise fun a b => a = .kDisconnected → b = .kDisconnected
  once : s.closeCallbacks ≤ 1

/-- No other thread sets `kDisconnecting` on a connection that is down by then. -/
def NotTooLate (s : StateRace) : Event → Prop
  | .thread i => ∀ delay, s.threads i = .passed delay → s.state ≠ .kDisconnected
  | _ => True

variable {s} {t : StateRace}

def Up (s : StateRace) : Prop := s.state = .kConnected ∨ s.state = .kDisconnecting

/-- What the loop thread knows of `state_` where it is. -/
def Knows (s : StateRace) : LoopPoint → Prop
  | .handleClose .first | .closing | .destroying | .forceClose (.passed _) => s.Up
  | .handleClose .second => s.state = .kDisconnecting
  | .callbacks => s.state = .kDisconnected ∧ s.closeCallbacks = 0
  | .asserting | .establishing => s.state = .kConnecting ∧ .connectEstablished ∉ s.pendingFunctors
  | _ => True

/-- The invariant of runs that go forward. -/
structure Ordered (s : StateRace) : Prop where
  last : ∃ earlier, s.states = earlier ++ [s.state]
  passed : ∀ i delay, s.threads i = .passed delay → s.state ≠ .kConnecting
  watching : s.watching = true → s.Up
  pending : .connectEstablished ∈ s.pendingFunctors → s.state = .kConnecting
  single : s.pendingFunctors.count .connectEstablished ≤ 1
  loop : s.Knows s.loop
  closes : s.state ≠ .kDisconnected → s.closeCallbacks = 0

theorem initial_ordered : Ordered initial where
  last := ⟨[], rfl⟩
  passed := nofun
  watching := nofun
  pending := fun _ => rfl
  single := by decide
  loop := trivial
  closes := fun _ => rfl

theorem initial_forward : Forward initial where
  forward := List.pairwise_singleton ..
  final := List.pairwise_singleton ..
  once := Nat.zero_le 1

theorem Up.ne (h : s.Up) : s.state ≠ .kConnecting ∧ s.state ≠ .kDisconnected := by
  cases h with
  | inl h => rw [h]; exact ⟨nofun, nofun⟩
  | inr h => rw [h]; exact ⟨nofun, nofun⟩

/-- Every earlier value of `state_` comes before the one it has. -/
theorem Forward.le_state (h : Forward s) (ho : Ordered s) {a : StateE} (ha : a ∈ s.states) :
    a.rank ≤ s.state.rank ∧ (a = .kDisconnected → s.state = .kDisconnected) := by
  obtain ⟨earlier, hlast⟩ := ho.last
  have hforward := h.forward
  have hfinal := h.final
  rw [hlast] at ha hforward hfinal
  cases List.mem_append.mp ha with
  | inl ha =>
    exact ⟨(List.pairwise_append.mp hforward).2.2 a ha _ (List.mem_singleton_self _),
      (List.pairwise_append.mp hfinal).2.2 a ha _ (List.mem_singleton_self _)⟩
  | inr ha =>
    rw [List.mem_singleton.mp ha]
    exact ⟨Nat.le_refl _, id⟩

/-- A write that does not go back. -/
theorem Forward.setState (h : Forward s) (ho : Ordered s) (st : StateE)
    (hrank : s.state.rank ≤ st.rank) (hdown : s.state = .kDisconnected → st = .kDisconnected) :
    Forward (s.setState st) := by
  refine ⟨List.pairwise_append.mpr ⟨h.forward, List.pairwise_singleton .., ?_⟩,
    List.pairwise_append.mpr ⟨h.final, List.pairwise_singleton .., ?_⟩, h.once⟩
  · intro a ha b hb
    rw [List.mem_singleton.mp hb]
    exact Nat.le_trans (h.le_state ho ha).1 hrank
  · intro a ha b hb hdisc
    rw [List.mem_singleton.mp hb]
    exact hdown ((h.le_state ho ha).2 hdisc)

/-- `setState(kDisconnecting)` on a connection that is up. -/
theorem Ordered.disconnecting (ho : Ordered s) (h : s.Up) :
    Ordered (s.setState .kDisconnecting) where
  last := ⟨s.states, rfl⟩
  passed _ _ _ := nofun
  watching _ := .inr rfl
  pending hp := absurd (ho.pending hp) h.ne.1
  single := ho.single
  loop := by
    have hknows := ho.loop
    change Knows _ s.loop
    cases hl : s.loop with
    | idle => trivial
    | asserting => rw [hl] at hknows; exact absurd hknows.1 h.ne.1
    | establishing => rw [hl] at hknows; exact absurd hknows.1 h.ne.1
    | forceCloseInLoop c => trivial
    | handleClose c =>
      cases c with
      | first => exact .inr rfl
      | second => rfl
    | closing => exact .inr rfl
    | callbacks => rw [hl] at hknows; exact absurd hknows.1 h.ne.2
    | connectDestroyed => trivial
    | destroying => exact .inr rfl
    | forceClose p =>
      cases p with
      | outside => trivial
      | checking delay c => trivial
      | passed delay => exact .inr rfl
      | set delay => trivial
  closes _ := ho.closes h.ne.2

theorem Forward.disconnecting (h : Forward s) (ho : Ordered s) (hup : s.Up) :
    Forward (s.setState .kDisconnecting) := by
  apply h.setState ho
  · cases hup with
    | inl hst => rw [hst]; decide
    | inr hst => rw [hst]
  · exact fun hdown => absurd hdown hup.ne.2

/-- What the loop thread knows depends on nothing else. -/
theorem Knows.congr {l : LoopPoint} (h : s.Knows l) (hst : t.state = s.state)
    (hcloses : t.closeCallbacks = s.closeCallbacks)
    (hpending : .connectEstablished ∈ t.pendingFunctors →
      .connectEstablished ∈ s.pendingFunctors) : t.Knows l := by
  have hup : s.Up → t.Up := fun hup => by
    rw [Up, hst]
    exact hup
  cases l with
  | asserting => exact ⟨hst.trans h.1, fun hp => h.2 (hpending hp)⟩
  | establishing => exact ⟨hst.trans h.1, fun hp => h.2 (hpending hp)⟩
  | handleClose c =>
    cases c with
    | first => exact hup h
    | second => exact hst.trans h
  | closing => exact hup h
  | callbacks => exact ⟨hst.trans h.1, hcloses.trans h.2⟩
  | destroying => exact hup h
  | forceClose p =>
    cases p with
    | passed delay => exact hup h
    | _ => trivial
  | _ => trivial

/-- The loop thread goes on to a point at which it knows what it should. -/
theorem Ordered.goTo (ho : Ordered s) {l : LoopPoint} (hl : s.Knows l) :
    Ordered { s with loop := l } :=
  ⟨ho.last, ho.passed, ho.watching, ho.pending, ho.single, hl.congr rfl rfl id, ho.closes⟩

theorem Ordered.queueInLoop (ho : Ordered s) {f : LoopFunctor} (hf : f ≠ .connectEstablished) :
    Ordered (s.queueInLoop f) := by
  have hold : .connectEstablished ∈ s.pendingFunctors ++ [f] →
      .connectEstablished ∈ s.pendingFunctors := by
    intro hp
    cases List.mem_append.mp hp with
    | inl hp => exact hp
    | inr hp => exact absurd (List.mem_singleton.mp hp).symm hf
  refine ⟨ho.last, ho.passed, ho.watching, fun hp => ho.pending (hold hp), ?_,
    ho.loop.congr rfl rfl hold, ho.closes⟩
  have hsingle := ho.single
  simp only [StateRace.queueInLoop, List.count_append, List.count_singleton, beq_iff_eq, hf,
    if_false, Nat.add_zero]
  exact hsingle

/-- A thread in `forceClose` that sets `kDisconnecting` only on a connection that is up. -/
theorem forceCloseStep_ordered (ho : Ordered s) (h : Forward s) {p : ForceClosing}
    (hup : ∀ delay, p = .passed delay → s.Up) :
    Ordered (s.forceCloseStep p).1 ∧ Forward (s.forceCloseStep p).1 ∧
      ((s.forceCloseStep p).1.threads = s.threads ∧ (s.forceCloseStep p).1.loop = s.loop) ∧
      ∀ delay, (s.forceCloseStep p).2 = .passed delay → (s.forceCloseStep p).1.Up := by
  cases p with
  | outside => exact ⟨ho, h, ⟨rfl, rfl⟩, nofun⟩
  | checking delay c =>
    cases c with
    | first =>
      refine ⟨ho, h, ⟨rfl, rfl⟩, ?_⟩
      intro delay' hpassed
      by_cases hst : s.state = .kConnected
      · exact .inl hst
      · simp only [forceCloseStep, if_neg hst, reduceCtorEq] at hpassed
    | second =>
      refine ⟨ho, h, ⟨rfl, rfl⟩, ?_⟩
      intro delay' hpassed
      by_cases hst : s.state = .kDisconnecting
      · exact .inr hst
      · simp only [forceCloseStep, if_neg hst, reduceCtorEq] at hpassed
  | passed delay =>
    exact ⟨ho.disconnecting (hup delay rfl), h.disconnecting ho (hup delay rfl), ⟨rfl, rfl⟩, nofun⟩
  | set delay =>
    cases delay with
    | false => exact ⟨ho.queueInLoop nofun, ⟨h.forward, h.final, h.once⟩, ⟨rfl, rfl⟩, nofun⟩
    | true =>
      refine ⟨?_, ⟨h.forward, h.final, h.once⟩, ⟨rfl, rfl⟩, nofun⟩
      exact ⟨ho.last, ho.passed, ho.watching, ho.pending, ho.single, ho.loop.congr rfl rfl id,
        ho.closes⟩

theorem loopStep_ordered (ho : Ordered s) (h : Forward s) :
    ∃ t, s.loopStep = .ok t ∧ Ordered t ∧ Forward t := by
  have hknows := ho.loop
  unfold loopStep
  cases hl : s.loop with
  | idle => exact ⟨s, rfl, ho, h⟩
  | asserting =>
    rw [hl] at hknows
    simp only [check_pos hknows.1, ok_bind]
    exact ⟨_, rfl, ho.goTo hknows, h.forward, h.final, h.once⟩
  | establishing =>
    rw [hl] at hknows
    refine ⟨_, rfl, ⟨⟨s.states, rfl⟩, fun _ _ _ => by simp [setState], fun _ => .inl rfl,
      fun hp => absurd hp hknows.2, ho.single, trivial, fun _ => ho.closes ?_⟩, ?_⟩
    · rw [hknows.1]
      simp
    · have hset := h.setState ho .kConnected (by rw [hknows.1]; decide)
        (fun hdown => by rw [hknows.1] at hdown; cases hdown)
      exact ⟨hset.forward, hset.final, hset.once⟩
  | forceCloseInLoop c =>
    cases c with
    | first =>
      refine ⟨_, rfl, ho.goTo ?_, h.forward, h.final, h.once⟩
      by_cases hst : s.state = .kConnected
      · rw [if_pos hst]
        exact .inl hst
      · rw [if_neg hst]
        trivial
    | second =>
      refine ⟨_, rfl, ho.goTo ?_, h.forward, h.final, h.once⟩
      by_cases hst : s.state = .kDisconnecting
      · rw [if_pos hst]
        exact .inr hst
      · rw [if_neg hst]
        trivial
  | handleClose c =>
    rw [hl] at hknows
    cases c with
    | first =>
      refine ⟨_, rfl, ho.goTo ?_, h.forward, h.final, h.once⟩
      by_cases hst : s.state = .kConnected
      · rw [if_pos hst]
        exact .inl hst
      · rw [if_neg hst]
        exact hknows.resolve_left hst
    | second =>
      simp only [check_pos (show s.state = .kDisconnecting from hknows), ok_bind]
      exact ⟨_, rfl, ho.goTo (.inr hknows), h.forward, h.final, h.once⟩
  | closing =>
    rw [hl] at hknows
    have hup : s.Up := hknows
    refine ⟨_, rfl, ⟨⟨s.states, rfl⟩, fun _ _ _ => by simp [setState], by simp,
      fun hp => absurd (ho.pending hp) hup.ne.1, ho.single, ⟨rfl, ho.closes hup.ne.2⟩,
      fun hne => absurd rfl hne⟩, ?_⟩
    have hset := h.setState ho .kDisconnected (by cases s.state <;> decide) (fun _ => rfl)
    exact ⟨hset.forward, hset.final, hset.once⟩
  | callbacks =>
    rw [hl] at hknows
    refine ⟨_, rfl, ⟨ho.last, ho.passed, ho.watching, ho.pending, ho.single, trivial,
      fun hne => absurd hknows.1 hne⟩, h.forward, h.final, ?_⟩
    rw [show s.closeCallbacks = 0 from hknows.2]
  | connectDestroyed =>
    refine ⟨_, rfl, ho.goTo ?_, h.forward, h.final, h.once⟩
    by_cases hst : s.state = .kConnected
    · rw [if_pos hst]
      exact .inl hst
    · rw [if_neg hst]
      trivial
  | destroying =>
    rw [hl] at hknows
    have hup : s.Up := hknows
    refine ⟨_, rfl, ⟨⟨s.states, rfl⟩, fun _ _ _ => by simp [setState], by simp,
      fun hp => absurd (ho.pending hp) hup.ne.1, ho.single, trivial, fun hne => absurd rfl hne⟩, ?_⟩
    have hset := h.setState ho .kDisconnected (by cases s.state <;> decide) (fun _ => rfl)
    exact ⟨hset.forward, hset.final, hset.once⟩
  | forceClose p =>
    rw [hl] at hknows
    have hup : ∀ delay, p = .passed delay → s.Up := by
      intro delay hp
      subst hp
      exact hknows
    obtain ⟨ht, hft, -, hpassed⟩ := forceCloseStep_ordered ho h hup
    have hnext : (s.forceCloseStep p).1.Knows (.ofForceClosing (s.forceCloseStep p).2) := by
      cases hp : (s.forceCloseStep p).2 with
      | passed delay => exact hpassed delay hp
      | _ => trivial
    exact ⟨{ (s.forceCloseStep p).1 with loop := .ofForceClosing (s.forceCloseStep p).2 }, rfl,
      ht.goTo hnext, hft.forward, hft.final, hft.once⟩

/-- A step that is not too late keeps the order. -/
theorem step_ordered (ho : Ordered s) (h : Forward s) {e : Event} (he : s.enabled e)
    (hc : s.NotTooLate e) : ∃ t, s.step e = .ok t ∧ Ordered t ∧ Forward t := by
  have hforward : ∀ t : StateRace, t.states = s.states → t.closeCallbacks = s.closeCallbacks →
      Forward t := fun t hst hcl => ⟨hst ▸ h.forward, hst ▸ h.final, hcl ▸ h.once⟩
  cases e with
  | call i delay =>
    refine ⟨_, rfl, ⟨ho.last, ?_, ho.watching, ho.pending, ho.single, ho.loop.congr rfl rfl id,
      ho.closes⟩, hforward _ rfl rfl⟩
    intro j delay' hj
    by_cases hji : j = i
    · subst hji
      cases (Function.update_self ..).symm.trans hj
    · exact ho.passed j delay' ((Function.update_of_ne hji ..).symm.trans hj)
  | thread i =>
    have hup : ∀ delay, s.threads i = .passed delay → s.Up := by
      intro delay hp
      have hstart := ho.passed i delay hp
      have hdown := hc delay hp
      cases hst : s.state with
      | kDisconnected => exact absurd hst hdown
      | kConnecting => exact absurd hst hstart
      | kConnected => exact .inl hst
      | kDisconnecting => exact .inr hst
    obtain ⟨ht, hft, ⟨hthreads, -⟩, hpassed⟩ := forceCloseStep_ordered ho h hup
    refine ⟨_, rfl, ⟨ht.last, ?_, ht.watching, ht.pending, ht.single, ht.loop.congr rfl rfl id,
      ht.closes⟩, hft.forward, hft.final, hft.once⟩
    intro j delay hj
    by_cases hji : j = i
    · subst hji
      exact (hpassed delay ((Function.update_self ..).symm.trans hj)).ne.1
    · exact ht.passed j delay ((Function.update_of_ne hji ..).symm.trans hj)
  | callInLoop delay => exact ⟨_, rfl, ho.goTo trivial, hforward _ rfl rfl⟩
  | timer =>
    refine ⟨_, rfl, ⟨ho.last, ho.passed, ho.watching, ho.pending, ho.single, trivial, ho.closes⟩,
      hforward _ rfl rfl⟩
  | handleRead n =>
    refine ⟨_, rfl, ?_⟩
    split
    · exact ⟨ho.goTo (ho.watching he.2), hforward _ rfl rfl⟩
    · exact ⟨ho, h⟩
  | handleClose => exact ⟨_, rfl, ho.goTo (ho.watching he.2), hforward _ rfl rfl⟩
  | functor =>
    cases hp : s.pendingFunctors with
    | nil => exact absurd hp he.2
    | cons f fs =>
      have hsingle := ho.single
      have hpending := ho.pending
      rw [hp] at hsingle hpending
      simp only [step, hp]
      refine ⟨_, rfl, ⟨ho.last, ho.passed, ho.watching,
        fun hin => hpending (List.mem_cons_of_mem f hin),
        le_trans (List.count_le_count_cons ..) hsingle, ?_, ho.closes⟩, hforward _ rfl rfl⟩
      cases f with
      | connectEstablished =>
        refine ⟨hpending List.mem_cons_self, ?_⟩
        intro hin
        have hpos : 0 < fs.count .connectEstablished := List.count_pos_iff.mpr hin
        rw [List.count_cons_self] at hsingle
        omega
      | forceCloseInLoop => trivial
      | connectDestroyed => trivial
  | queueConnectDestroyed => exact ⟨_, rfl, ho.queueInLoop nofun, hforward _ rfl rfl⟩
  | loop => exact loopStep_ordered ho h

/-- A thread that sets `kDisconnecting` on a connection that is down takes it back up. -/
theorem step_too_late (ho : Ordered s) {e : Event} (hc : ¬s.NotTooLate e)
    (hstep : s.step e = .ok t) : ¬Forward t := by
  intro h
  cases e with
  | thread i =>
    simp only [NotTooLate, Classical.not_forall, not_not] at hc
    obtain ⟨delay, hp, hdown⟩ := hc
    simp only [step, hp, forceCloseStep] at hstep
    cases hstep
    obtain ⟨earlier, hlast⟩ := ho.last
    have hback := (List.pairwise_append.mp h.final).2.2 .kDisconnected
      (by rw [hlast, hdown]; exact List.mem_append_right _ (List.mem_singleton_self _))
      .kDisconnecting (List.mem_singleton_self _) rfl
    cases hback
  | _ => exact hc trivial

/-- The state of a connection goes forward throughout a run exactly when no other thread sets
`kDisconnecting` too late. -/
theorem state_forward_iff {es : List Event}
    (hl : machine.Legal (fun _ _ => True) initial es) :
    machine.Legal NotTooLate initial es ↔
      ∀ fs t, fs <+: es → machine.run initial fs = .ok t → Forward t := by
  refine Machine.Legal.iff_run (I := fun s => Forward s → Ordered s) ?_
    (fun _ => initial_ordered) initial_forward hl
  intro s e hs h he
  have ho := hs h
  by_cases hc : s.NotTooLate e
  · obtain ⟨t, hstep, hot, hft⟩ := step_ordered ho h he hc
    refine ⟨fun t' ht' => ?_, fun f hf => ?_⟩
    · cases hstep.symm.trans ht'
      exact ⟨fun _ => hot, iff_of_true hft hc⟩
    · cases hstep.symm.trans hf
  · refine ⟨fun t ht => ?_, fun f hf => ?_⟩
    · have hback := step_too_late ho hc ht
      exact ⟨fun hft => absurd hft hback, iff_of_false hback hc⟩
    · cases e with
      | thread i => cases hf
      | _ => exact absurd trivial hc

instance (s : StateRace) : ∀ e, Decidable (s.NotTooLate e)
  | .thread i =>
    match h : s.threads i with
    | .passed _ =>
      decidable_of_iff (s.state ≠ .kDisconnected)
        ⟨fun hne _ _ => hne, fun hall => hall _ h⟩
    | .outside | .checking _ _ | .set _ => isTrue fun _ hp => by rw [h] at hp; cases hp
  | .call _ _ | .callInLoop _ | .timer | .handleRead _ | .handleClose | .functor
  | .queueConnectDestroyed | .loop => isTrue trivial

/-- Another thread is in `forceClose` while the loop thread reads data. -/
def sampleForceClose : List Event :=
  [.functor, .loop, .loop, .call 0 false, .thread 0, .handleRead 1, .thread 0, .thread 0, .functor,
    .loop, .loop, .loop, .loop, .loop, .loop]

theorem state_forward_iff_sample : machine.Legal NotTooLate initial sampleForceClose ↔
    ∀ fs t, fs <+: sampleForceClose → machine.run initial fs = .ok t → Forward t :=
  state_forward_iff (by decide +kernel)

/-- The peer closes between the condition and the `setState` of `forceClose`. -/
def closedTwice : List Event :=
  [.functor, .loop, .loop, .call 0 false, .thread 0, .handleRead 0, .loop, .loop, .loop, .thread 0,
    .thread 0, .functor, .loop, .loop, .loop, .loop, .loop, .loop]

theorem state_goes_back : ¬ ∀ es, machine.Legal (fun _ _ => True) initial es →
    ∀ fs t, fs <+: es → machine.run initial fs = .ok t → Forward t := by
  intro h
  have hlegal : machine.Legal (fun _ _ => True) initial closedTwice := by decide +kernel
  have htwice : ((machine.run initial closedTwice).toOption.map fun t =>
      (t.closeCallbacks, t.states)) = some (2, [.kConnecting, .kConnected, .kDisconnected,
        .kDisconnecting, .kDisconnected]) := by
    decide +kernel
  cases hr : machine.run initial closedTwice with
  | error f => simp [hr, Except.toOption] at htwice
  | ok t =>
    simp only [hr, Except.toOption, Option.map_some, Option.some.injEq, Prod.mk.injEq] at htwice
    have honce := (h _ hlegal closedTwice t (List.prefix_refl _) hr).once
    omega

end StateRace

end Muduo.Net
