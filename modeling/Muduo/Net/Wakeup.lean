import Muduo.Net.EventLoop

namespace Muduo.Net
open Muduo.Lib

/-- Where the loop thread must not go on to block without a wake-up: from the swap of one
iteration to the poll of the next. -/
def Place.drained {F : Type} : Place F → Prop
  | .test => True
  | .poll => True
  | .running _ _ => True
  | _ => False

/-- The places at which `callingPendingFunctors_` is set. -/
def Place.calling {F : Type} : Place F → Prop
  | .swapping => True
  | .running _ _ => True
  | _ => False

namespace EventLoop

variable {F : Type} {s : EventLoop F}

/-- A wake-up is on its way: the eventfd is readable, or a thread that pushed will write it. -/
def Awake (s : EventLoop F) : Prop := 0 < s.wakeupFd ∨ ∃ t, s.threads t = .pushed

/-- The invariant of the loop; the loop thread itself is between a push and its `wakeup()`
only while it runs functors. -/
structure Sound (s : EventLoop F) : Prop where
  order : s.pushes = s.executed ++ s.tail ++ s.pendingFunctors
  awake : s.place.drained → s.pendingFunctors ≠ [] → s.Awake
  calling : s.callingPendingFunctors = true ↔ s.place.calling
  waking : s.threads .loop = .pushed → s.place.drained ∧ s.place.calling
  looping : s.looping = false ↔ s.place = .stopped

theorem initial_sound : Sound (initial : EventLoop F) where
  order := rfl
  awake := by simp [initial, Place.drained]
  calling := by simp [initial, Place.calling]
  waking := by simp [initial]
  looping := by simp [initial]

theorem wakeup_readable (s : EventLoop F) : 0 < s.wakeup.wakeupFd := by
  have hmax : 0 < maxEventfd := by decide
  simp only [wakeup]
  split
  · omega
  · omega

/-- In user code inside `doPendingFunctors` the swap has happened. -/
theorem drained_of_calling (hu : s.inUserCode .loop) (hc : s.place.calling) : s.place.drained := by
  obtain ⟨-, hu⟩ := hu
  cases hp : s.place with
  | running functors i => trivial
  | swapping => simp [atUserCode, hp] at hu
  | stopped => simp [hp, Place.calling] at hc
  | test => trivial
  | poll => trivial
  | handling rest => simp [hp, Place.calling] at hc

/-- Every push leaves a wake-up behind it, except one by the loop thread before the swap. -/
theorem Sound.queueInLoop (hs : Sound s) {t : Thread} (hu : s.inUserCode t) (cb : F) :
    Sound (s.queueInLoop t cb) := by
  have horder : s.pushes ++ [cb] = s.executed ++ s.tail ++ (s.pendingFunctors ++ [cb]) := by
    rw [hs.order, List.append_assoc]
  by_cases h : (!t.isInLoopThread || s.callingPendingFunctors) = true
  · simp only [EventLoop.queueInLoop, h, if_true]
    refine ⟨horder, fun _ _ => .inr ⟨t, Function.update_self ..⟩, hs.calling, ?_, hs.looping⟩
    intro hloop
    cases t with
    | loop =>
      have hc := hs.calling.mp (by simpa [Thread.isInLoopThread] using h)
      exact ⟨drained_of_calling (s := s) hu hc, hc⟩
    | other tid => exact hs.waking (by simpa using hloop)
  · simp only [EventLoop.queueInLoop, h]
    refine ⟨horder, fun hd _ => ?_, hs.calling, hs.waking, hs.looping⟩
    -- the loop thread, outside `doPendingFunctors`
    cases t with
    | other tid => simp [Thread.isInLoopThread] at h
    | loop =>
      have hcalling : ¬s.place.calling := by
        rw [← hs.calling]
        simpa [Thread.isInLoopThread] using h
      obtain ⟨-, hu⟩ := hu
      cases hp : s.place with
      | test => simp [atUserCode, hp] at hu
      | poll => simp [atUserCode, hp] at hu
      | running functors i => simp [hp, Place.calling] at hcalling
      | stopped => simp [hp, Place.drained] at hd
      | handling rest => simp [hp, Place.drained] at hd
      | swapping => simp [hp, Place.drained] at hd

theorem Sound.runInLoop (hs : Sound s) {t : Thread} (hu : s.inUserCode t) (cb : F) :
    Sound (s.runInLoop t cb) := by
  unfold EventLoop.runInLoop
  split
  · exact hs
  · exact hs.queueInLoop hu cb

theorem Sound.setQuit (hs : Sound s) {t : Thread} (hu : s.inUserCode t) :
    Sound (s.setQuit t) := by
  cases t with
  | loop => exact { hs with }
  | other tid =>
    have hset : s.setQuit (.other tid) = { s with
        quit := true, threads := Function.update s.threads (.other tid) .quitting } := rfl
    rw [hset]
    refine ⟨hs.order, fun hd hp => ?_, hs.calling, fun h => hs.waking (by simpa using h),
      hs.looping⟩
    rcases hs.awake hd hp with h | ⟨t, ht⟩
    · exact .inl h
    · -- the thread that quits is not the one that pushed
      have hne : t ≠ .other tid := by
        rintro rfl
        simp [inUserCode, ht] at hu
      exact .inr ⟨t, by simpa [hne] using ht⟩

theorem Sound.finishCall (hs : Sound s) (t : Thread) : Sound (s.finishCall t) := by
  refine ⟨hs.order, fun _ _ => .inl (wakeup_readable s), hs.calling, fun h => ?_, hs.looping⟩
  have hne : t ≠ .loop := by
    rintro rfl
    simp [EventLoop.finishCall] at h
  exact hs.waking (by simpa [EventLoop.finishCall, hne.symm] using h)

theorem Sound.enterLoop (hs : Sound s) (hp : s.place = .stopped)
    (hempty : s.pendingFunctors = []) (hidle : s.threads .loop = .outside) :
    ∃ s', s.enterLoop = .ok s' ∧ Sound s' := by
  have hnot : ¬s.callingPendingFunctors = true := by
    rw [hs.calling, hp]
    exact id
  refine ⟨_, by simp only [EventLoop.enterLoop, check_pos (hs.looping.mpr hp), ok_bind]; rfl, ?_⟩
  refine ⟨?_, fun _ h => absurd hempty h, iff_of_false hnot id, fun h => ?_, by simp⟩
  · simpa [tail, hp] using hs.order
  · simp [hidle] at h

/-- The loop thread goes on; it blocks only where it comes from `doPendingFunctors`, or from
the head of `loop()`. -/
theorem Sound.proceed (hs : Sound s) (hidle : s.threads .loop = .outside)
    (hrun : s.place ≠ .stopped) :
    ∃ s', s.step .proceed = .ok s' ∧ Sound s' := by
  have hlooping : ¬s.looping = false := fun h => hrun (hs.looping.mp h)
  have hwaking : ∀ P : Prop, s.threads .loop = .pushed → P := by
    intro P h
    simp [hidle] at h
  have horder := hs.order
  have hawake := hs.awake
  have hcalling := hs.calling
  cases hp : s.place with
  | stopped => exact absurd hp hrun
  | poll => exact ⟨s, by simp only [step, hp], hs⟩
  | test =>
    refine ⟨s.testQuit, by simp only [step, hp], ?_⟩
    simp only [tail, hp, Place.calling, iff_false] at horder hawake hcalling
    unfold testQuit
    split
    · exact ⟨by simpa [tail] using horder, nofun, iff_of_false hcalling id, hwaking _,
        iff_of_true rfl rfl⟩
    · exact ⟨by simpa [tail] using horder, fun _ => hawake trivial, iff_of_false hcalling id,
        hwaking _, iff_of_false hlooping nofun⟩
  | handling rest =>
    refine ⟨s.handleNext rest, by simp only [step, hp], ?_⟩
    simp only [tail, hp, Place.calling, iff_false] at horder hcalling
    cases rest with
    | nil =>
      exact ⟨by simpa [tail, handleNext] using horder, nofun, iff_of_true rfl trivial, hwaking _,
        iff_of_false hlooping nofun⟩
    | cons channel rest =>
      have hnext : ∀ fd : Nat, Sound { s with
          currentActiveChannel := some channel, place := .handling rest, wakeupFd := fd } :=
        fun fd => ⟨by simpa [tail] using horder, nofun, iff_of_false hcalling id, hwaking _,
          iff_of_false hlooping nofun⟩
      cases channel with
      | wakeup => exact hnext 0
      | other fd => exact hnext s.wakeupFd
  | swapping =>
    refine ⟨s.swapFunctors, by simp only [step, hp], ?_⟩
    simp only [tail, hp, Place.calling, iff_true] at horder hcalling
    exact ⟨by simpa [tail, swapFunctors] using horder, fun _ h => absurd rfl h,
      iff_of_true hcalling trivial, hwaking _, iff_of_false hlooping nofun⟩
  | running functors i =>
    refine ⟨s.callNext functors i, by simp only [step, hp], ?_⟩
    simp only [tail, hp, Place.calling, iff_true] at horder hawake hcalling
    unfold callNext
    split
    · rename_i f hf
      obtain ⟨hi, rfl⟩ := List.getElem?_eq_some_iff.mp hf
      rw [List.drop_eq_getElem_cons hi] at horder
      exact ⟨by simpa [tail] using horder, fun _ => hawake trivial, iff_of_true hcalling trivial,
        hwaking _, iff_of_false hlooping nofun⟩
    · rename_i hf
      rw [List.drop_eq_nil_of_le (List.getElem?_eq_none_iff.mp hf)] at horder
      exact ⟨by simpa [tail] using horder, fun _ => hawake trivial, iff_of_false nofun id,
        hwaking _, iff_of_false hlooping nofun⟩

/-- `loop()` is entered with nothing pending. -/
def EntersEmpty (s : EventLoop F) : Event F → Prop
  | .enterLoop => s.pendingFunctors = []
  | _ => True

theorem Sound.step (hs : Sound s) {e : Event F} (he : machine.enabled s e)
    (hc : s.EntersEmpty e) : ∃ s', machine.step s e = .ok s' ∧ Sound s' := by
  cases e with
  | queueInLoop t cb => exact ⟨_, rfl, hs.queueInLoop he cb⟩
  | runInLoop t cb => exact ⟨_, rfl, hs.runInLoop he cb⟩
  | quit t => exact ⟨_, rfl, hs.setQuit he⟩
  | finishCall t => exact ⟨_, rfl, hs.finishCall t⟩
  | enterLoop => exact hs.enterLoop he.2 hc he.1
  | pollReturns active =>
    have hp : s.place = .poll := he.1
    have hnot : ¬s.callingPendingFunctors = true := by
      rw [hs.calling, hp]
      exact id
    refine ⟨_, rfl, ?_, nofun, iff_of_false hnot id, fun h => ?_, iff_of_false ?_ nofun⟩
    · simpa [pollReturns, tail, hp] using hs.order
    · exact absurd (hs.waking h).2 (by rw [hp]; exact id)
    · intro h
      have hstopped := hs.looping.mp h
      rw [hp] at hstopped
      exact nomatch hstopped
  | proceed => exact hs.proceed he.1 he.2.1

/-- What the loop promises: no wake-up is lost, and the functors run once each in the order in
which they were pushed. -/
structure Served (s : EventLoop F) : Prop where
  awake : s.place = .poll → s.pendingFunctors ≠ [] →
    0 < s.wakeupFd ∨ ∃ tid, s.threads (.other tid) = .pushed
  order : s.pushes = s.executed ++ (s.tail ++ s.pendingFunctors)

theorem Sound.served (hs : Sound s) : Served s := by
  refine ⟨fun hp hne => ?_, by rw [hs.order, List.append_assoc]⟩
  rcases hs.awake (by rw [hp]; trivial) hne with h | ⟨t, ht⟩
  · exact .inl h
  · cases t with
    | loop => exact absurd (hs.waking ht).2 (by rw [hp]; exact id)
    | other tid => exact .inr ⟨tid, ht⟩

theorem functors_served {es : List (Event F)} (hl : machine.Legal EntersEmpty initial es) :
    Yields Served (fun _ => False) (machine.run initial es) := by
  have hsound : Yields Sound (fun _ => False) (machine.run initial es) := by
    refine Machine.run_keeps (fun s e hs he hc => ?_) initial_sound hl
    obtain ⟨s', hstep, hs'⟩ := hs.step he hc
    rw [hstep]
    exact hs'
  exact hsound.mono fun s hs => hs.served

instance : ∀ (s : EventLoop F) t, Decidable (s.inUserCode t)
  | s, .other tid => inferInstanceAs (Decidable (s.threads (.other tid) = .outside))
  | s, .loop => inferInstanceAs (Decidable (s.threads .loop = .outside ∧ s.atUserCode = true))

instance [DecidableEq F] : ∀ (s : EventLoop F) e, Decidable (machine.enabled s e)
  | s, .queueInLoop t _ => inferInstanceAs (Decidable (s.inUserCode t))
  | s, .runInLoop t _ => inferInstanceAs (Decidable (s.inUserCode t))
  | s, .quit t => inferInstanceAs (Decidable (s.inUserCode t))
  | s, .finishCall t => inferInstanceAs (Decidable (s.threads t ≠ .outside))
  | s, .enterLoop => inferInstanceAs (Decidable (s.threads .loop = .outside ∧ s.place = .stopped))
  | s, .pollReturns active =>
    inferInstanceAs (Decidable (s.place = .poll ∧ (.wakeup ∈ active → 0 < s.wakeupFd)))
  | s, .proceed => inferInstanceAs (Decidable
    (s.threads .loop = .outside ∧ s.place ≠ .stopped ∧ s.place ≠ .poll))

instance [DecidableEq F] : ∀ (s : EventLoop F) e, Decidable (s.EntersEmpty e)
  | s, .enterLoop => inferInstanceAs (Decidable (s.pendingFunctors = []))
  | _, .queueInLoop _ _ => isTrue trivial
  | _, .runInLoop _ _ => isTrue trivial
  | _, .quit _ => isTrue trivial
  | _, .finishCall _ => isTrue trivial
  | _, .pollReturns _ => isTrue trivial
  | _, .proceed => isTrue trivial

/-- A push from another thread wakes the loop; its functor pushes a second one, and a third
comes from outside after the swap. -/
def sampleRun : List (Event Nat) :=
  [.enterLoop, .proceed, .queueInLoop (.other 1) 1, .finishCall (.other 1),
    .pollReturns [.other 7, .wakeup], .proceed, .proceed, .proceed, .proceed, .proceed,
    .queueInLoop .loop 2, .queueInLoop (.other 1) 3, .finishCall .loop, .proceed, .proceed]

theorem functors_served_sample :
    Yields Served (fun _ => False) (machine.run (initial : EventLoop Nat) sampleRun) :=
  functors_served (by decide +kernel)

end EventLoop

end Muduo.Net
