import Mathlib.Data.List.Infix
import Muduo.Net.InterestTable

namespace Muduo.Net.Pollers
open Muduo.Lib

variable {C : Type} [DecidableEq C] {fd : C → Nat} {s t : Loops C} {c : C}

/-- The channel that an event is about. -/
def Event.channel : Event C → C
  | .change c _ => c
  | .remove c => c

namespace Loops

/-- Both pollers watch the abstract interest table. -/
structure SameTable (fd : C → Nat) (s : Loops C) : Prop where
  epoll : ∀ n e, s.epoll.kernel n = some e ↔ Table fd s.events s.addedToLoop n e
  poll : ∀ n e, (n, e) ∈ s.poll.watched ↔ Table fd s.events s.addedToLoop n e
  agree : ∀ n e, s.epoll.kernel n = some e ↔ (n, e) ∈ s.poll.watched

/-- Whatever is watched for the other descriptors stays watched as it was. -/
structure OthersKept (n : Nat) (s t : Loops C) : Prop where
  epoll : ∀ n', n' ≠ n → t.epoll.kernel n' = s.epoll.kernel n'
  poll : ∀ n', n' ≠ n → ∀ e, (n', e) ∈ t.poll.watched ↔ (n', e) ∈ s.poll.watched

/-- A channel's events change only before it is removed, and a change that leaves the channel
without events takes some away. -/
def Settled (s : Loops C) : Event C → Prop
  | .change c change =>
    s.removed c = false ∧ (change.apply (s.events c) = kNoneEvent → s.events c ≠ kNoneEvent)
  | .remove _ => True

structure Agree (fd : C → Nat) (s : Loops C) : Prop where
  epoll : s.epoll.Sound fd s.events s.addedToLoop
  poll : s.poll.Sound fd s.events s.addedToLoop s.removed
  idle : ∀ c, s.addedToLoop c = false → s.events c = kNoneEvent

omit [DecidableEq C] in
theorem Agree.sameTable (hs : s.Agree fd) : s.SameTable fd :=
  ⟨hs.epoll.kernel, hs.poll.watched, fun n e => by rw [hs.epoll.kernel, hs.poll.watched]⟩

omit [DecidableEq C] in
theorem initial_agree : (initial C).Agree fd := by
  refine ⟨⟨fun c => rfl, fun n c => ?_, fun n e => ?_⟩,
    ⟨fun n c => ?_, nofun, nofun, fun c _ _ => rfl⟩, fun c _ => rfl⟩
  · exact iff_of_false nofun nofun
  · exact iff_of_false nofun fun ⟨_, _, h, _⟩ => nomatch h
  · exact iff_of_false nofun nofun

theorem change_agree (hs : s.Agree fd) (hfd : Function.Injective fd) {change : Change}
    (hc : s.Settled (.change c change)) : ∃ t, s.change fd c change = .ok t ∧ t.Agree fd ∧
      t.events = Function.update s.events c (change.apply (s.events c)) ∧
      t.addedToLoop = Function.update s.addedToLoop c true := by
  obtain ⟨hr, he⟩ := hc
  have hepoll := EPollPoller.updateChannel_eq hs.epoll hfd (hs.idle c) he
  have hidle : ∀ c', Function.update s.addedToLoop c true c' = false →
      Function.update s.events c (change.apply (s.events c)) c' = kNoneEvent := by
    intro c' ha
    have hne : c' ≠ c := by
      rintro rfl
      simp at ha
    rw [Function.update_of_ne hne] at ha ⊢
    exact hs.idle c' ha
  cases ha : s.addedToLoop c with
  | false =>
    have hpoll := PollPoller.enter_eq (e := change.apply (s.events c)) hs.poll hfd ha hr
    refine ⟨_, by simp only [Loops.change, hepoll, hpoll, ok_bind]; rfl, ⟨?_, ?_, hidle⟩, rfl, rfl⟩
    · exact EPollPoller.settled_sound hs.epoll hfd c _
    · exact PollPoller.entered_sound hs.poll hfd ha fun h => he h (hs.idle c ha)
  | true =>
    obtain ⟨i, hi, -⟩ := hs.poll.slot c ha
    have hpoll := PollPoller.rewrite_eq (e := change.apply (s.events c)) hs.poll ha hi
    refine ⟨_, by simp only [Loops.change, hepoll, hpoll, ok_bind]; rfl, ⟨?_, ?_, hidle⟩, rfl, rfl⟩
    · exact EPollPoller.settled_sound hs.epoll hfd c _
    · exact PollPoller.rewritten_sound hs.poll hfd ha hi

theorem remove_agree (hs : s.Agree fd) (hfd : Function.Injective fd)
    (he : s.enabled (.remove c)) : ∃ t, s.remove fd c = .ok t ∧ t.Agree fd ∧
      t.events = Function.update s.events c kNoneEvent ∧
      t.addedToLoop = Function.update s.addedToLoop c false := by
  obtain ⟨ha, hev⟩ := he
  have hepoll := EPollPoller.removeChannel_eq hs.epoll ha hev
  obtain ⟨p', hpoll, hp'⟩ := PollPoller.remove_eq hs.poll hfd ha hev
  have hself : s.events = Function.update s.events c kNoneEvent := by
    rw [← hev, Function.update_eq_self]
  have hstep : s.remove fd c = .ok { s with
      addedToLoop := Function.update s.addedToLoop c false
      removed := Function.update s.removed c true
      epoll := { s.epoll with
        index := Function.update s.epoll.index c .kNew
        channels := Function.update s.epoll.channels (fd c) none }
      poll := p' } := by
    simp only [Loops.remove, check_pos hev, hepoll, hpoll, ok_bind]
  refine ⟨_, hstep, ⟨?_, ?_, fun c' ha' => ?_⟩, hself, rfl⟩
  · exact EPollPoller.removed_sound hs.epoll hfd hev
  · exact hp'.sound hs.poll hfd ha
  · by_cases hc : c' = c
    · rw [hc]
      exact hev
    · change Function.update s.addedToLoop c false c' = false at ha'
      rw [Function.update_of_ne hc] at ha'
      exact hs.idle c' ha'

/-- A step in which only one channel's events and registration change keeps the others'
entries. -/
theorem Agree.others (hs : s.Agree fd) (ht : t.Agree fd) (hfd : Function.Injective fd)
    {e : Events} {a : Bool} (he : t.events = Function.update s.events c e)
    (ha : t.addedToLoop = Function.update s.addedToLoop c a) : OthersKept (fd c) s t := by
  have htable : ∀ n', n' ≠ fd c → ∀ e', Table fd t.events t.addedToLoop n' e' ↔
      Table fd s.events s.addedToLoop n' e' := by
    intro n' hn' e'
    rw [he, ha, table_update hfd, if_neg hn']
  refine ⟨fun n' hn' => ?_, fun n' hn' e' => ?_⟩
  · apply Option.ext
    intro e'
    rw [ht.epoll.kernel, hs.epoll.kernel, htable n' hn']
  · rw [ht.poll.watched, hs.poll.watched, htable n' hn']

theorem step_agree (hs : s.Agree fd) (hfd : Function.Injective fd) {e : Event C}
    (he : s.enabled e) (hc : s.Settled e) :
    ∃ t, s.step fd e = .ok t ∧ t.Agree fd ∧ OthersKept (fd e.channel) s t := by
  cases e with
  | change c change =>
    obtain ⟨t, hstep, ht, hev, hadd⟩ := change_agree hs hfd hc
    exact ⟨t, hstep, ht, hs.others ht hfd hev hadd⟩
  | remove c =>
    obtain ⟨t, hstep, ht, hev, hadd⟩ := remove_agree hs hfd he
    exact ⟨t, hstep, ht, hs.others ht hfd hev hadd⟩

theorem run_agree (hfd : Function.Injective fd) {es : List (Event C)}
    (hl : (machine fd).Legal Settled (initial C) es) :
    Yields (Agree fd) (fun _ => False) ((machine fd).run (initial C) es) := by
  refine Machine.run_keeps (fun s e hs he hc => ?_) initial_agree hl
  obtain ⟨t, hstep, ht, -⟩ := step_agree hs hfd he hc
  change Yields _ _ (s.step fd e)
  rw [hstep]
  exact ht

/-- In a run whose steps are all settled no assertion fails, both pollers watch the abstract
table in every state, and no step changes what is watched for another channel. -/
theorem pollers_watch_table (hfd : Function.Injective fd) {es : List (Event C)}
    (hl : (machine fd).Legal Settled (initial C) es) :
    Yields (SameTable fd) (fun _ => False) ((machine fd).run (initial C) es) ∧
      ∀ fs e s, fs ++ [e] <+: es → (machine fd).run (initial C) fs = .ok s →
        Yields (OthersKept (fd e.channel) s) (fun _ => False) (s.step fd e) := by
  refine ⟨(run_agree hfd hl).mono fun s hs => hs.sameTable, ?_⟩
  rintro fs e s ⟨gs, rfl⟩ hrun
  have hs := (run_agree hfd hl.left.left).of_ok hrun
  obtain ⟨he, hc, -⟩ := hl.left.right hrun
  obtain ⟨t, hstep, -, ht⟩ := step_agree hs hfd he hc
  rw [hstep]
  exact ht

instance (s : Loops C) : ∀ e, Decidable (s.enabled e)
  | .change _ _ => isTrue trivial
  | .remove c => inferInstanceAs (Decidable (s.addedToLoop c = true ∧ s.events c = kNoneEvent))

instance (s : Loops C) : ∀ e, Decidable (s.Settled e)
  | .change c change => inferInstanceAs (Decidable
    (s.removed c = false ∧ (change.apply (s.events c) = kNoneEvent → s.events c ≠ kNoneEvent)))
  | .remove _ => isTrue trivial

instance (s : Loops C) (e : Event C) : Decidable ((machine fd).enabled s e) :=
  inferInstanceAs (Decidable (s.enabled e))

/-- Three channels; the last slot moves twice. -/
def sampleRun : List (Event (Fin 3)) :=
  let a := ⟨0, by decide⟩
  let b := ⟨1, by decide⟩
  let c := ⟨2, by decide⟩
  [.change a .enableReading, .change b .enableReading, .change c .enableWriting,
    .change b .enableWriting, .change a .disableAll, .remove a, .change c .disableWriting,
    .change c .enableReading, .change b .disableAll, .remove b, .change c .disableAll, .remove c]

theorem pollers_watch_table_sample :
    Yields (SameTable Fin.val) (fun _ => False)
        ((machine Fin.val).run (initial (Fin 3)) sampleRun) ∧
      ∀ fs e s, fs ++ [e] <+: sampleRun → (machine Fin.val).run (initial (Fin 3)) fs = .ok s →
        Yields (OthersKept e.channel.val s) (fun _ => False) (s.step Fin.val e) :=
  pollers_watch_table (fun _ _ h => Fin.ext h) (by decide +kernel)

/-- The index of a removed channel still names a slot under `PollPoller`, so that an assertion
fails when the channel is enabled again. -/
theorem stale_index_fails : ¬∀ (fd : Fin 3 → Nat) (es : List (Event (Fin 3))),
    Function.Injective fd → (machine fd).Legal (fun _ _ => True) (initial (Fin 3)) es →
    Yields (SameTable fd) (fun _ => False) ((machine fd).run (initial (Fin 3)) es) := by
  intro h
  have hrun := h Fin.val
    [.change 0 .enableReading, .change 0 .disableAll, .remove 0, .change 0 .enableReading]
    (fun _ _ h => Fin.ext h) (by decide +kernel)
  have hfault : ((machine Fin.val).run (initial (Fin 3)) [.change 0 .enableReading,
      .change 0 .disableAll, .remove 0, .change 0 .enableReading]).isOk = false := by
    decide +kernel
  cases hr : (machine Fin.val).run (initial (Fin 3)) [.change 0 .enableReading,
      .change 0 .disableAll, .remove 0, .change 0 .enableReading] with
  | error f => simp [hr] at hrun
  | ok s => simp [hr, Except.isOk, Except.toBool] at hfault

end Loops

end Muduo.Net.Pollers
