import Muduo.Net.EventLoopThread

namespace Muduo.Net
open Muduo.Lib

namespace EventLoop

variable {F : Type} {s t : EventLoop F} {e : Event F}

/-- What a step of a loop that nobody quits leaves as it is. -/
structure Kept (s t : EventLoop F) : Prop where
  quit : t.quit = s.quit
  looping : (s.looping = false ↔ s.place = .stopped) → (t.looping = false ↔ t.place = .stopped)
  stopped : s.place = .stopped → t.place = .stopped
  runs : s.quit = false → s.place ≠ .stopped → t.place ≠ .stopped

theorem Kept.of_same (hq : t.quit = s.quit) (hl : t.looping = s.looping) (hp : t.place = s.place) :
    Kept s t where
  quit := hq
  looping h := by rw [hl, hp, h]
  stopped h := hp.trans h
  runs _ h := by rwa [hp]

/-- The loop thread goes from one place in `loop()` to another. -/
theorem Kept.of_runs (hq : t.quit = s.quit) (hl : t.looping = s.looping) (hs : s.place ≠ .stopped)
    (ht : t.place ≠ .stopped) : Kept s t where
  quit := hq
  looping h := by
    rw [hl, h]
    exact iff_of_false hs ht
  stopped h := absurd h hs
  runs _ _ := ht

theorem queueInLoop_kept (s : EventLoop F) (t : Thread) (cb : F) : Kept s (s.queueInLoop t cb) := by
  simp only [queueInLoop]
  split
  · exact .of_same rfl rfl rfl
  · exact .of_same rfl rfl rfl

theorem proceed_kept (hrun : s.place ≠ .stopped) (ht : s.step .proceed = .ok t) : Kept s t := by
  simp only [step] at ht
  cases hp : s.place with
  | stopped => exact absurd hp hrun
  | poll =>
    simp only [hp] at ht
    cases ht
    exact .of_same rfl rfl rfl
  | test =>
    simp only [hp] at ht
    cases ht
    unfold testQuit
    split
    · rename_i hq
      refine ⟨rfl, by simp, fun h => absurd h hrun, fun h => ?_⟩
      simp [hq] at h
    · exact .of_runs rfl rfl hrun (by simp)
  | handling rest =>
    simp only [hp] at ht
    cases ht
    cases rest with
    | nil => exact .of_runs rfl rfl hrun (by simp [handleNext])
    | cons channel rest =>
      cases channel with
      | wakeup => exact .of_runs rfl rfl hrun (by simp [handleNext, handleRead])
      | other fd => exact .of_runs rfl rfl hrun (by simp [handleNext])
  | swapping =>
    simp only [hp] at ht
    cases ht
    exact .of_runs rfl rfl hrun (by simp [swapFunctors])
  | running functors i =>
    simp only [hp] at ht
    cases ht
    unfold callNext
    split
    · exact .of_runs rfl rfl hrun (by simp)
    · exact .of_runs rfl rfl hrun (by simp)

theorem step_kept (he : machine.enabled s e) (ht : machine.step s e = .ok t)
    (hquit : ∀ x, e ≠ .quit x) (henter : e ≠ .enterLoop) : Kept s t := by
  cases e with
  | queueInLoop x cb =>
    cases ht
    exact queueInLoop_kept s x cb
  | runInLoop x cb =>
    cases ht
    unfold EventLoop.runInLoop
    split
    · exact .of_same rfl rfl rfl
    · exact queueInLoop_kept s x cb
  | quit x => exact absurd rfl (hquit x)
  | finishCall x =>
    cases ht
    exact .of_same rfl rfl rfl
  | enterLoop => exact absurd rfl henter
  | pollReturns active =>
    cases ht
    exact .of_runs rfl rfl (by rw [he.1]; simp) (by simp [pollReturns])
  | proceed => exact proceed_kept he.2.1 ht

theorem step_returns (henter : e ≠ .enterLoop) : ∃ t, machine.step s e = .ok t := by
  cases e with
  | enterLoop => exact absurd rfl henter
  | queueInLoop x cb | runInLoop x cb | quit x | finishCall x | pollReturns active => exact ⟨_, rfl⟩
  | proceed => cases hp : s.place <;> exact ⟨_, by simp only [machine, step, hp]; rfl⟩

/-- How many steps the loop thread is from the end of a loop that has been quit. -/
def distance (s : EventLoop F) : Nat :=
  match s.place with
  | .stopped => 0
  | .test => 1
  | .running functors i => 2 + (functors.length - i)
  | .swapping => 3 + s.pendingFunctors.length
  | .handling rest => 4 + rest.length + s.pendingFunctors.length
  | .poll => 5 + s.pendingFunctors.length

/-- A loop that has been quit gets nearer its end. -/
theorem proceed_closer (hquit : s.quit = true) (hrun : s.place ≠ .stopped) (hpoll : s.place ≠ .poll)
    (ht : s.step .proceed = .ok t) : t.distance < s.distance ∧ t.threads = s.threads := by
  simp only [step] at ht
  cases hp : s.place with
  | stopped => exact absurd hp hrun
  | poll => exact absurd hp hpoll
  | test =>
    simp only [hp] at ht
    cases ht
    simp [testQuit, hquit, distance, hp]
  | handling rest =>
    simp only [hp] at ht
    cases ht
    cases rest with
    | nil => simp [handleNext, distance, hp]
    | cons channel rest => cases channel <;> simp [handleNext, handleRead, distance, hp]
  | swapping =>
    simp only [hp] at ht
    cases ht
    simp [swapFunctors, distance, hp]
  | running functors i =>
    simp only [hp] at ht
    cases ht
    unfold callNext
    split
    · rename_i f hf
      have hi := (List.getElem?_eq_some_iff.mp hf).1
      refine ⟨?_, rfl⟩
      simp only [distance, hp]
      omega
    · refine ⟨?_, rfl⟩
      simp only [distance, hp]
      omega

end EventLoop

namespace EventLoopThread

variable {F : Type} {s t : EventLoopThread F}

/-- Where the owner and the new thread can be at the same time. -/
def Together : Holder → ThreadFunc → Prop
  | .outside, f => f = .unborn
  | .locking, f | .waiting, f => f = .initializing ∨ f = .entering ∨ f = .looping
  | .unlocked, f | .testing, f => f = .entering ∨ f = .looping
  | .ready loop, f => loop = true ∧ (f = .entering ∨ f = .looping)
  | .quitting, f => f = .looping ∨ f = .cleared
  | .joining, f => f = .looping ∨ f = .cleared ∨ f = .finished
  | .gone, f => f = .unborn ∨ f = .finished

structure Sound (s : EventLoopThread F) : Prop where
  together : Together s.owner s.func
  started : s.started = true ↔ s.func ≠ .unborn
  loopSet : s.loopSet = true ↔ s.func = .entering ∨ s.func = .looping
  quit : s.loop.quit = true ↔ s.Quitting ∨ s.func = .finished
  inside : s.cond.inside = if s.owner = .waiting then [0] else []
  told : s.loopSet = true → s.cond.waiting = []
  idle : s.func = .unborn ∨ s.func = .initializing ∨ s.func = .entering → s.loop.place = .stopped
  stays : s.func = .looping → s.loop.place = .stopped → s.loop.quit = true
  looping : s.loop.looping = false ↔ s.loop.place = .stopped

theorem initial_sound : (initial : EventLoopThread F).Sound := by
  constructor <;> simp [initial, EventLoop.initial, Quitting, Condition.empty, Condition.inside,
    Together]

theorem not_quitting {owner : Holder} (h : s.owner = owner) (hq : owner ≠ .quitting)
    (hj : owner ≠ .joining) : ¬s.Quitting := by
  intro hquit
  rcases hquit with he | he
  · exact hq (h.symm.trans he)
  · exact hj (h.symm.trans he)

theorem only_one {l : List Nat} {p : Prop} [Decidable p] (h : l.Perm (if p then [0] else [])) :
    l = if p then [0] else [] := by
  split
  · rename_i hp
    simpa [hp] using h
  · rename_i hp
    simpa [hp] using h

/-- The owner goes on, without a `quit()`. -/
theorem Sound.move (h : s.Sound) {owner : Holder} (hnot : ¬s.Quitting)
    (hq : owner ≠ .quitting) (hj : owner ≠ .joining) (ht : Together owner s.func)
    {cond : Condition Nat} (hin : cond.inside = if owner = .waiting then [0] else [])
    (htold : s.loopSet = true → cond.waiting = []) :
    Sound { s with owner := owner, cond := cond } where
  together := ht
  started := h.started
  loopSet := h.loopSet
  quit := by
    have hnew : ¬Quitting { s with owner := owner, cond := cond } := not_quitting rfl hq hj
    have hquit := h.quit
    simp only [hnot, hnew, false_or] at hquit ⊢
    exact hquit
  inside := hin
  told := htold
  idle := h.idle
  stays := h.stays
  looping := h.looping

theorem Sound.await (h : s.Sound) (ho : s.owner = .locking ∨ s.owner = .waiting)
    {cond : Condition Nat} (hin : cond.inside = []) :
    Sound (EventLoopThread.await { s with cond := cond }) := by
  have hnot : ¬s.Quitting := by
    intro hq
    rcases ho with ho | ho <;> rcases hq with hq | hq <;> rw [ho] at hq <;> cases hq
  have htogether : Together .waiting s.func := by
    have ht := h.together
    rcases ho with ho | ho <;> rwa [ho] at ht
  have hnone : cond.waiting = [] := (List.append_eq_nil_iff.mp hin).1
  by_cases hset : s.loopSet = true
  · have hstep : EventLoopThread.await { s with cond := cond } =
        { s with owner := .unlocked, cond := cond } :=
      if_pos hset
    rw [hstep]
    exact h.move hnot (by simp) (by simp) (by simpa [Together] using h.loopSet.mp hset)
      (by simpa using hin) fun _ => hnone
  · have hstep : EventLoopThread.await { s with cond := cond } =
        { s with owner := .waiting, cond := cond.wait 0 } := if_neg hset
    rw [hstep]
    refine h.move hnot (by simp) (by simp) htogether ?_ fun hset' => absurd hset' hset
    simpa [hin] using (Condition.perm_wait cond 0)

theorem deref_eq (h : s.loopSet = true) (hf : s.func ≠ .finished) : s.deref = .ok () := by
  apply if_neg
  simp [h, hf]

theorem after_of_ne (f : ThreadFunc) {e : EventLoop.Event F} (h : e ≠ .enterLoop) :
    f.after e = f := by
  cases e with
  | enterLoop => exact absurd rfl h
  | queueInLoop | runInLoop | quit | finishCall | pollReturns | proceed => rfl

theorem loop_step {e : EventLoop.Event F} (h : (machine F).step s (.loop e) = .ok t) :
    ∃ loop, EventLoop.machine.step s.loop e = .ok loop ∧
      t = { s with loop := loop, func := s.func.after e } := by
  obtain ⟨loop, hl, hk⟩ := bind_ok h
  cases hk
  exact ⟨loop, hl, rfl⟩

/-- A step of the loop, whoever makes it. -/
theorem Sound.loop (h : s.Sound) {e : EventLoop.Event F} (hu : s.uses e)
    (he : EventLoop.machine.enabled s.loop e) (hquit : ∀ x, e ≠ .quit x) :
    Yields Sound (fun _ => False) ((machine F).step s (.loop e)) := by
  by_cases henter : e = .enterLoop
  · subst henter
    have hf : s.func = .entering := hu
    have htogether := h.together
    rw [hf] at htogether
    have hnot : ¬s.Quitting := by
      intro hq
      rcases hq with hq | hq <;> simp [hq, Together] at htogether
    have hlooping := h.looping.mpr (h.idle (.inr (.inr hf)))
    have hstep : (machine F).step s (.loop .enterLoop) = .ok { s with
        loop := { s.loop with looping := true, quit := false, place := .test }
        func := .looping } := by
      simp [machine, step, EventLoop.machine, EventLoop.step, EventLoop.enterLoop,
        check_pos hlooping, ThreadFunc.after]
    have hnew : Together s.owner .looping := by
      cases ho : s.owner <;> simp_all [Together]
    rw [hstep]
    refine ⟨hnew, by simp [h.started, hf], by simp [h.loopSet, hf], ?_, h.inside, h.told,
      by simp, by simp, by simp⟩
    simpa [Quitting] using hnot
  · obtain ⟨loop, ht⟩ := EventLoop.step_returns (s := s.loop) henter
    have hkept := EventLoop.step_kept he ht hquit henter
    have hstep : (machine F).step s (.loop e) = .ok { s with loop := loop } := by
      simp only [machine, step, ht, ok_bind, after_of_ne s.func henter]
    rw [hstep]
    refine ⟨h.together, h.started, h.loopSet, ?_, h.inside, h.told,
      fun hf => hkept.stopped (h.idle hf), ?_, hkept.looping h.looping⟩
    · have hasked := h.quit
      rw [← hkept.quit] at hasked
      exact hasked
    · intro hf hstopped
      change loop.place = .stopped at hstopped
      change loop.quit = true
      rw [hkept.quit]
      by_contra hno
      have hfalse : s.loop.quit = false := by simpa using hno
      have hrun : s.loop.place ≠ .stopped := fun hs => hno (h.stays hf hs)
      exact hkept.runs hfalse hrun hstopped

/-- The thread of the loop is done with it. -/
theorem Sound.clear (h : s.Sound) (hf : s.func = .looping) (hp : s.loop.place = .stopped) :
    Sound { s with loopSet := false, func := .cleared } := by
  have hasked : s.Quitting := by
    rcases h.quit.mp (h.stays hf hp) with hq | hq
    · exact hq
    · rw [hf] at hq
      cases hq
  have htogether : Together s.owner .cleared := by
    rcases hasked with ho | ho <;> simp [ho, Together]
  refine ⟨htogether, by simp [h.started, hf], by simp, ?_, h.inside, by simp, by simp, by simp,
    h.looping⟩
  have hquit := h.quit
  simp only [hf, reduceCtorEq, or_false] at hquit
  simpa [Quitting] using hquit

theorem Sound.destruct (h : s.Sound) (hf : s.func = .cleared) (ho : s.owner ≠ .quitting) :
    Sound { s with func := .finished } := by
  have htogether := h.together
  have hquit := h.quit
  rw [hf] at htogether
  have hjoining : s.owner = .joining := by
    cases howner : s.owner <;> simp_all [Together]
  refine ⟨by simp [hjoining, Together], by simp [h.started, hf], ?_, ?_, h.inside, h.told, by simp,
    by simp, h.looping⟩
  · simp [h.loopSet, hf]
  · have hasked : s.loop.quit = true := hquit.mpr (.inl (.inr hjoining))
    simp [hasked]

theorem Sound.publish (h : s.Sound) (hf : s.func = .initializing) {wake : Option Nat}
    (hm : s.cond.MayWake wake) : (s.publish wake).Sound := by
  have htogether := h.together
  rw [hf] at htogether
  have ho : s.owner = .locking ∨ s.owner = .waiting := by
    cases howner : s.owner <;> simp_all [Together]
  have hperm := Condition.perm_notify hm
  refine ⟨?_, by simp [EventLoopThread.publish, h.started, hf], by simp [EventLoopThread.publish],
    ?_, ?_, fun _ => ?_, ?_, by simp [EventLoopThread.publish], h.looping⟩
  · rcases ho with ho | ho <;> simp [EventLoopThread.publish, ho, Together]
  · have hquit := h.quit
    simp only [hf, reduceCtorEq, or_false] at hquit
    simpa [EventLoopThread.publish, Quitting] using hquit
  · exact only_one (hperm.trans (.of_eq h.inside))
  · -- nobody but the owner waits
    have hlen : s.cond.waiting.length ≤ 1 := by
      have hall := congrArg List.length h.inside
      simp only [Condition.inside, List.length_append] at hall
      split at hall
      · simp only [List.length_singleton] at hall
        omega
      · simp only [List.length_nil] at hall
        omega
    exact Condition.waiting_notify hm hlen
  · intro _
    exact h.idle (.inr (.inl hf))

theorem Sound.step (h : s.Sound) {e : Event F} (he : (machine F).enabled s e) (hc : s.InTime e) :
    Yields Sound (fun _ => False) ((machine F).step s e) := by
  have hidle : ∀ {owner : Holder}, s.owner = owner → owner ≠ .quitting → owner ≠ .joining →
      owner ≠ .waiting → ¬s.Quitting ∧ s.cond.inside = [] := by
    intro owner ho hq hj hw
    refine ⟨not_quitting ho hq hj, ?_⟩
    rw [h.inside, ho, if_neg hw]
  have htogether := h.together
  cases e with
  | startLoop =>
    have ho : s.owner = .outside := he
    obtain ⟨hnot, hin⟩ := hidle ho (by simp) (by simp) (by simp)
    have hf : s.func = .unborn := by simpa [ho, Together] using htogether
    have hstarted : s.started = false := by simpa [hf] using h.started
    have hstep : (machine F).step s .startLoop =
        .ok { s with started := true, owner := .locking, func := .initializing } := by
      change s.startLoop = _
      rw [EventLoopThread.startLoop, check_pos hstarted, ok_bind]
    rw [hstep]
    refine ⟨by simp [Together], by simp, by simp [h.loopSet, hf], ?_, by simpa using hin, h.told,
      fun _ => h.idle (.inl hf), by simp, h.looping⟩
    have hquit := h.quit
    simp only [hnot, hf, reduceCtorEq, or_self, iff_false] at hquit
    simpa [Quitting] using hquit
  | lock =>
    have ho : s.owner = .locking := he
    obtain ⟨-, hin⟩ := hidle ho (by simp) (by simp) (by simp)
    exact h.await (.inl ho) hin
  | relock =>
    obtain ⟨ho, hw⟩ := he
    apply h.await (.inr ho)
    have hperm := Condition.perm_resume hw
    rw [h.inside, if_pos ho] at hperm
    simpa using hperm.length_eq
  | rouse =>
    have hnone : s.loopSet ≠ true := by
      intro hset
      have hmem : 0 ∈ s.cond.waiting := he
      rw [h.told hset] at hmem
      cases hmem
    exact ⟨htogether, h.started, h.loopSet, h.quit, only_one ((Condition.perm_rouse he).trans
      (.of_eq h.inside)), fun hset => absurd hset hnone, h.idle, h.stays, h.looping⟩
  | readLoop =>
    have ho : s.owner = .unlocked := he
    obtain ⟨hnot, hin⟩ := hidle ho (by simp) (by simp) (by simp)
    have hf : s.func = .entering ∨ s.func = .looping := by simpa [ho, Together] using htogether
    refine h.move hnot (by simp) (by simp) ?_ (by simpa using hin) h.told
    exact ⟨h.loopSet.mpr hf, hf⟩
  | destroy =>
    obtain ⟨ho, -⟩ := he
    have hexit : Sound { s with exiting := true } :=
      ⟨htogether, h.started, h.loopSet, h.quit, h.inside, h.told, h.idle, h.stays, h.looping⟩
    have hboth : ¬s.Quitting ∧ s.cond.inside = [] := by
      rcases ho with ho | ⟨loop, ho⟩
      · exact hidle ho (by simp) (by simp) (by simp)
      · exact hidle ho (by simp) (by simp) (by simp)
    by_cases hset : s.loopSet = true
    · have hstep : (machine F).step s .destroy =
          .ok { s with exiting := true, owner := .testing } := by
        simp [machine, EventLoopThread.step, EventLoopThread.destroy, hset]
      rw [hstep]
      have htest : Together .testing s.func := h.loopSet.mp hset
      exact hexit.move hboth.1 (by simp) (by simp) htest (by simpa using hboth.2) h.told
    · have hstep : (machine F).step s .destroy = .ok { s with exiting := true, owner := .gone } := by
        simp [machine, EventLoopThread.step, EventLoopThread.destroy, hset]
      rw [hstep]
      refine hexit.move hboth.1 (by simp) (by simp) ?_ (by simpa using hboth.2) h.told
      rcases ho with ho | ⟨loop, ho⟩
      · exact .inl (by simpa [ho, Together] using htogether)
      · rw [ho] at htogether
        exact absurd (h.loopSet.mpr htogether.2) hset
  | quit =>
    have ho : s.owner = .testing := he
    obtain ⟨-, hin⟩ := hidle ho (by simp) (by simp) (by simp)
    have hf : s.func = .looping := by
      rw [ho] at htogether
      exact htogether.resolve_left hc
    have hstep : (machine F).step s .quit =
        .ok { s with loop := s.loop.setQuit me, owner := .quitting } := by
      change s.quit = _
      rw [EventLoopThread.quit, deref_eq (h.loopSet.mpr (.inr hf)) (by simp [hf]), ok_bind]
    rw [hstep]
    refine ⟨.inl hf, h.started, h.loopSet, ?_, by simpa using hin, h.told, h.idle, ?_, h.looping⟩
    · exact iff_of_true rfl (.inl (.inl rfl))
    · exact fun _ _ => rfl
  | wakeup =>
    have ho : s.owner = .quitting := he
    rw [ho] at htogether
    have hf : s.func ≠ .finished := by
      rcases htogether with hf | hf <;> simp [hf]
    have hstep : (machine F).step s .wakeup =
        .ok { s with loop := s.loop.finishCall me, owner := .joining } := if_neg hf
    have hin := h.inside
    rw [if_neg (by simp [ho])] at hin
    rw [hstep]
    refine ⟨?_, h.started, h.loopSet, ?_, by simpa using hin, h.told, h.idle, h.stays, h.looping⟩
    · exact htogether.elim .inl fun hf => .inr (.inl hf)
    · have hasked : s.loop.quit = true := h.quit.mpr (.inl (.inl ho))
      exact iff_of_true hasked (.inl (.inr rfl))
  | joinReturns =>
    obtain ⟨ho, hf⟩ := he
    have hasked : s.loop.quit = true := h.quit.mpr (.inl (.inr ho))
    have hin := h.inside
    rw [if_neg (by simp [ho])] at hin
    exact ⟨.inr hf, h.started, h.loopSet, iff_of_true hasked (.inr hf), by simpa using hin, h.told,
      h.idle, h.stays, h.looping⟩
  | publish wake => exact h.publish he.1 he.2
  | loop e => exact h.loop he.1 he.2.1 he.2.2
  | clear => exact h.clear he.1 he.2
  | destruct => exact h.destruct he hc

/-- Some run leads behind the destructor. -/
def CanReturn (s : EventLoopThread F) : Prop :=
  ∃ es t, (machine F).Reaches (fun _ _ => True) s es t ∧ t.owner = .gone

/-- The steps that lead a loop that has been quit to its end. -/
def Winds (s : EventLoopThread F) : Event F → Prop
  | .wakeup | .joinReturns | .clear => True
  | .destruct => s.owner ≠ .quitting
  | .loop e => e = .finishCall .loop ∨ e = .proceed ∨ e = .pollReturns []
  | _ => False

theorem Winds.inTime {e : Event F} (h : s.Winds e) : s.InTime e := by
  cases e with
  | destruct => exact h
  | loop e =>
    rcases h with rfl | rfl | rfl <;> trivial
  | quit => cases h
  | _ => trivial

def ownerRank : Holder → Nat
  | .quitting => 2
  | .joining => 1
  | _ => 0

def funcRank : ThreadFunc → Nat
  | .looping => 2
  | .cleared => 1
  | _ => 0

def callRank (s : EventLoop F) : Nat := if s.threads .loop = .outside then 0 else 1

/-- How many steps the owner is from the end of the destructor. -/
def remaining (s : EventLoopThread F) : Nat :=
  ownerRank s.owner + funcRank s.func + s.loop.distance + callRank s.loop

/-- The destructor is at work, or done. -/
def Ending (s : EventLoopThread F) : Prop := s.Sound ∧ (s.Quitting ∨ s.owner = .gone)

theorem Ending.not_gone (h : s.Ending) (hu : s.func ≠ .unborn) (hf : s.func ≠ .finished) :
    s.Quitting := by
  refine h.2.resolve_right fun ho => ?_
  have htogether := h.1.together
  rw [ho] at htogether
  exact htogether.elim hu hf

/-- The loop's own thread takes a step in `loop()`. -/
theorem Ending.loop (h : s.Ending) {e : EventLoop.Event F} (hthread : e.thread = .loop)
    (hu : s.uses e) (he : EventLoop.machine.enabled s.loop e) (hw : s.Winds (.loop e))
    (ht : (machine F).step s (.loop e) = .ok t) :
    t.remaining < s.remaining ∧ (t.Quitting ∨ t.owner = .gone) := by
  have henter : e ≠ .enterLoop := by
    rintro rfl
    simp [Winds] at hw
  obtain ⟨loop, hl⟩ := EventLoop.step_returns (s := s.loop) henter
  have hstep : (machine F).step s (.loop e) = .ok { s with loop := loop } := by
    simp only [machine, step, hl, ok_bind, after_of_ne s.func henter]
  cases hstep.symm.trans ht
  refine ⟨?_, h.2⟩
  have hlt : loop.distance + callRank loop < s.loop.distance + callRank s.loop := by
    have hrun : s.func = .initializing ∨ s.func = .looping ∧ s.loop.place ≠ .stopped := by
      rcases hw with rfl | rfl | rfl <;> exact hu
    have hf : s.func ≠ .initializing := by
      intro hf
      have htogether := h.1.together
      rw [hf] at htogether
      rcases h.2 with hq | ho
      · rcases hq with ho | ho <;> simp [ho, Together] at htogether
      · simp [ho, Together] at htogether
    obtain ⟨hlooping, hplace⟩ := hrun.resolve_left hf
    have hquit : s.loop.quit = true :=
      h.1.quit.mpr (.inl (h.not_gone (by simp [hlooping]) (by simp [hlooping])))
    rcases hw with rfl | rfl | rfl
    · cases hl
      have hin : s.loop.threads .loop ≠ .outside := he
      have hrank : callRank (s.loop.finishCall .loop) = 0 := by
        simp [callRank, EventLoop.finishCall]
      have hdist : (s.loop.finishCall .loop).distance = s.loop.distance := rfl
      rw [hrank, hdist, callRank, if_neg hin]
      omega
    · obtain ⟨hcloser, hthreads⟩ := EventLoop.proceed_closer hquit hplace he.2.2 hl
      simp only [callRank, hthreads]
      omega
    · cases hl
      have hpoll : s.loop.place = .poll := he.1
      simp only [EventLoop.distance, EventLoop.pollReturns, hpoll, callRank, List.length_nil]
      exact Nat.add_lt_add_right (by omega) _
  simp only [remaining]
  omega

theorem Ending.step (h : s.Ending) {e : Event F} (he : (machine F).enabled s e) (hw : s.Winds e)
    (ht : (machine F).step s e = .ok t) : t.Ending ∧ t.remaining < s.remaining := by
  have hsound : t.Sound := (h.1.step he hw.inTime).of_ok ht
  have hboth : t.remaining < s.remaining ∧ (t.Quitting ∨ t.owner = .gone) := by
    cases e with
    | wakeup =>
      have ho : s.owner = .quitting := he
      have htogether := h.1.together
      rw [ho] at htogether
      have hf : s.func ≠ .finished := by
        rcases htogether with hf | hf <;> simp [hf]
      have hstep : (machine F).step s .wakeup =
          .ok { s with loop := s.loop.finishCall me, owner := .joining } := if_neg hf
      cases hstep.symm.trans ht
      refine ⟨?_, .inl (.inr rfl)⟩
      have hcall : callRank (s.loop.finishCall me) = callRank s.loop := rfl
      have hdist : (s.loop.finishCall me).distance = s.loop.distance := rfl
      simp only [remaining, hcall, hdist, ho, ownerRank]
      omega
    | joinReturns =>
      cases ht
      refine ⟨?_, .inr rfl⟩
      simp only [remaining, he.1, ownerRank]
      omega
    | clear =>
      cases ht
      refine ⟨?_, h.2⟩
      simp only [remaining, he.1, funcRank]
      omega
    | destruct =>
      cases ht
      refine ⟨?_, h.2⟩
      simp only [remaining, show s.func = .cleared from he, funcRank]
      omega
    | loop e =>
      refine h.loop ?_ he.1 he.2.1 hw ht
      rcases hw with rfl | rfl | rfl <;> rfl
    | _ => cases hw
  exact ⟨⟨hsound, hboth.2⟩, hboth.1⟩

theorem Ending.can_step (h : s.Ending) (ho : s.owner ≠ .gone) :
    ∃ e t, (machine F).enabled s e ∧ s.Winds e ∧ (machine F).step s e = .ok t := by
  have hstep : ∀ e, (machine F).enabled s e → s.Winds e →
      ∃ e t, (machine F).enabled s e ∧ s.Winds e ∧ (machine F).step s e = .ok t := by
    intro e he hw
    have hyields := h.1.step he hw.inTime
    obtain ⟨t, ht, -⟩ := hyields.returns
    exact ⟨e, t, he, hw, ht⟩
  have htogether := h.1.together
  rcases h.2.resolve_right ho with hq | hj
  · exact hstep .wakeup hq trivial
  · rw [hj] at htogether
    rcases htogether with hf | hf | hf
    · by_cases hp : s.loop.place = .stopped
      · exact hstep .clear ⟨hf, hp⟩ trivial
      · by_cases hcall : s.loop.threads .loop = .outside
        · by_cases hpoll : s.loop.place = .poll
          · exact hstep (.loop (.pollReturns [])) ⟨.inr ⟨hf, hp⟩, ⟨hpoll, by simp⟩, by simp⟩
              (.inr (.inr rfl))
          · exact hstep (.loop .proceed) ⟨.inr ⟨hf, hp⟩, ⟨hcall, hp, hpoll⟩, by simp⟩
              (.inr (.inl rfl))
        · exact hstep (.loop (.finishCall .loop)) ⟨.inr ⟨hf, hp⟩, hcall, by simp⟩ (.inl rfl)
    · exact hstep .destruct hf (by simp [Winds, hj])
    · exact hstep .joinReturns ⟨hj, hf⟩ trivial

theorem Ending.can_return (h : s.Ending) : s.CanReturn := by
  obtain ⟨es, t, hreach, hgone⟩ :
      ∃ es t, (machine F).Reaches (fun s e => s.Winds e) s es t ∧ t.owner = .gone :=
    Machine.exists_rest (fun s e t hs he hw ht => hs.step he hw ht)
      (fun s hs ho => hs.can_step ho) h
  have hany : (machine F).Legal (fun _ _ => True) s es :=
    Machine.Legal.imp (I := fun _ => True) (fun _ _ _ _ _ => trivial) (fun _ _ _ _ _ => trivial)
      trivial hreach.1
  exact ⟨es, t, ⟨hany, hreach.2⟩, hgone⟩

/-- The destructor waits for good: the loop has not been entered, or runs on without the `quit()`
that it has missed, or is gone before its `wakeup()`. -/
def Doomed (s : EventLoopThread F) : Prop :=
  s.Quitting ∧ (s.func = .entering ∨
    s.func = .looping ∧ s.loop.place ≠ .stopped ∧ s.loop.quit = false) ∨
  s.owner = .quitting ∧ s.func = .finished

theorem Doomed.not_gone (h : s.Doomed) : s.owner ≠ .gone := by
  rcases h with ⟨ho | ho, -⟩ | ⟨ho, -⟩ <;> simp [ho]

theorem Doomed.step (h : s.Doomed) {e : Event F} (he : (machine F).enabled s e)
    (ht : (machine F).step s e = .ok t) : t.Doomed := by
  have howner : s.owner = .quitting ∨ s.owner = .joining := by
    rcases h with ⟨ho, -⟩ | ⟨ho, -⟩
    · exact ho
    · exact .inl ho
  have hne : ∀ {owner : Holder}, s.owner = owner → owner ≠ .quitting → owner ≠ .joining → False := by
    intro owner ho hq hj
    rcases howner with hs | hs <;> rw [hs] at ho
    · exact hq ho.symm
    · exact hj ho.symm
  cases e with
  | startLoop => exact (hne (show s.owner = .outside from he) (by simp) (by simp)).elim
  | lock => exact (hne (show s.owner = .locking from he) (by simp) (by simp)).elim
  | relock => exact (hne (show s.owner = .waiting from he.1) (by simp) (by simp)).elim
  | readLoop => exact (hne (show s.owner = .unlocked from he) (by simp) (by simp)).elim
  | quit => exact (hne (show s.owner = .testing from he) (by simp) (by simp)).elim
  | destroy =>
    rcases he.1 with ho | ⟨loop, ho⟩
    · exact (hne ho (by simp) (by simp)).elim
    · exact (hne ho (by simp) (by simp)).elim
  | rouse =>
    cases ht
    exact h
  | wakeup =>
    rcases h with ⟨-, hf⟩ | ⟨-, hf⟩
    · have hlive : s.func ≠ .finished := by
        rcases hf with hf | ⟨hf, -⟩ <;> simp [hf]
      have hstep : (machine F).step s .wakeup =
          .ok { s with loop := s.loop.finishCall me, owner := .joining } := if_neg hlive
      cases hstep.symm.trans ht
      exact .inl ⟨.inr rfl, hf⟩
    · cases (show (machine F).step s .wakeup = .error .useAfterFree from if_pos hf).symm.trans ht
  | joinReturns =>
    obtain ⟨ho, hfin⟩ := he
    rcases h with ⟨-, hf | ⟨hf, -⟩⟩ | ⟨hq, -⟩
    · simp [hf] at hfin
    · simp [hf] at hfin
    · simp [ho] at hq
  | publish wake =>
    have hinit : s.func = .initializing := he.1
    rcases h with ⟨-, hf | ⟨hf, -⟩⟩ | ⟨-, hf⟩ <;> simp [hf] at hinit
  | clear =>
    obtain ⟨hf', hp⟩ := he
    rcases h with ⟨-, hf | ⟨-, hrun, -⟩⟩ | ⟨-, hf⟩
    · simp [hf] at hf'
    · exact absurd hp hrun
    · simp [hf] at hf'
  | destruct =>
    have hclear : s.func = .cleared := he
    rcases h with ⟨-, hf | ⟨hf, -⟩⟩ | ⟨-, hf⟩ <;> simp [hf] at hclear
  | loop e =>
    obtain ⟨hu, hen, hquit⟩ := he
    have hmine : e.thread = .loop := by
      cases hthread : e.thread with
      | loop => rfl
      | other tid =>
        have hready : s.owner = .ready true := by
          simpa [uses, hthread] using hu
        exact (hne hready (by simp) (by simp)).elim
    obtain ⟨loop, hl, rfl⟩ := loop_step ht
    by_cases henter : e = .enterLoop
    · subst henter
      obtain ⟨-, -, hl⟩ := bind_ok hl
      cases hl
      exact .inl ⟨howner, .inr ⟨rfl, by simp, rfl⟩⟩
    · have hfunc : s.func = .initializing ∨ s.func = .looping ∧ s.loop.place ≠ .stopped := by
        cases e with
        | enterLoop => exact absurd rfl henter
        | _ => simpa [uses, hmine] using hu
      have hkept := EventLoop.step_kept hen hl hquit henter
      rw [after_of_ne s.func henter]
      rcases h with ⟨hq, hf | ⟨hf, hrun, hno⟩⟩ | ⟨-, hf⟩
      · simp [hf] at hfunc
      · refine .inl ⟨hq, .inr ⟨hf, hkept.runs hno hrun, ?_⟩⟩
        exact hkept.quit.trans hno
      · simp [hf] at hfunc

theorem Doomed.cannot_return (h : s.Doomed) : ¬s.CanReturn := by
  intro hreturn
  obtain ⟨es, t, hreach, hgone⟩ := hreturn
  have hrun := Machine.run_keeps (m := machine F) (I := Doomed) (b := fun _ => True)
    (c := fun _ _ => True) ?_ h hreach.1
  · exact (hrun.of_ok hreach.2).not_gone hgone
  · intro u e hu he _
    cases ht : (machine F).step u e with
    | error f => trivial
    | ok v => exact hu.step he ht

/-- What the owner is promised: `startLoop` waits only for a loop that is still to come and returns
it, and the destructor can return. -/
structure Good (s : EventLoopThread F) : Prop where
  told : s.owner = .waiting → s.loopSet = true → s.cond.Woken 0
  returned : ∀ loop, s.owner = .ready loop → loop = true
  returns : s.Quitting → s.CanReturn

theorem Sound.good (h : s.Sound) : s.Good where
  told ho hset := by
    have hin : (0 : Nat) ∈ s.cond.inside := by
      rw [h.inside, if_pos ho]
      exact List.mem_singleton_self 0
    rw [Condition.mem_inside, h.told hset] at hin
    exact hin.resolve_left (by simp)
  returned loop ho := by
    have htogether := h.together
    rw [ho] at htogether
    exact htogether.1
  returns hq := Ending.can_return ⟨h, .inl hq⟩

theorem Doomed.not_good (h : s.Doomed) : ¬s.Good := by
  intro hgood
  rcases h with hq | hq
  · exact Doomed.cannot_return (.inl hq) (hgood.returns hq.1)
  · exact Doomed.cannot_return (.inr hq) (hgood.returns (.inl hq.1))

/-- A step that comes too early, or too late, leaves the owner without a way out. -/
theorem Sound.late (h : s.Sound) {e : Event F} (he : (machine F).enabled s e) (hc : ¬s.InTime e) :
    ¬Yields Good (fun _ => False) ((machine F).step s e) := by
  cases e with
  | quit =>
    have ho : s.owner = .testing := he
    have hf : s.func = .entering := not_not.mp hc
    have hstep : (machine F).step s .quit =
        .ok { s with loop := s.loop.setQuit me, owner := .quitting } := by
      change s.quit = _
      rw [EventLoopThread.quit, deref_eq (h.loopSet.mpr (.inl hf)) (by simp [hf]), ok_bind]
    rw [hstep]
    have hdoomed : Doomed { s with loop := s.loop.setQuit me, owner := .quitting } :=
      .inl ⟨.inl rfl, .inl hf⟩
    exact hdoomed.not_good
  | destruct =>
    have ho : s.owner = .quitting := not_not.mp hc
    have hdoomed : Doomed { s with func := .finished } := .inr ⟨ho, rfl⟩
    exact hdoomed.not_good
  | _ => exact absurd trivial hc

/-- All goes well exactly as long as the destructor quits the loop after it has begun, and the
loop is there until `quit()` is through with it. -/
theorem destructor_returns_iff {es : List (Event F)}
    (hl : (machine F).Legal (fun _ _ => True) initial es) :
    (machine F).Legal InTime initial es ↔
      ∀ fs, fs <+: es → Yields Good (fun _ => False) ((machine F).run initial fs) :=
  Machine.Legal.iff_good (fun _ _ hs he hc => hs.step he hc) (fun _ _ hs he hc => hs.late he hc)
    (fun _ hs => hs.good) initial_sound hl

/-- The owner waits for the loop, and destroys it again when it polls. -/
def goodNight : List (Event Nat) :=
  [.startLoop, .lock, .publish (some 0), .relock, .readLoop, .loop .enterLoop, .loop .proceed,
    .destroy, .quit, .wakeup]

theorem goodNight_legal : (machine Nat).Legal (fun _ _ => True) initial goodNight := by
  refine ⟨rfl, trivial, fun t ht => ?_⟩
  cases ht
  refine ⟨rfl, trivial, fun t ht => ?_⟩
  cases ht
  refine ⟨⟨rfl, List.mem_singleton_self 0⟩, trivial, fun t ht => ?_⟩
  cases ht
  refine ⟨⟨rfl, .inl (List.mem_singleton_self 0)⟩, trivial, fun t ht => ?_⟩
  cases ht
  refine ⟨rfl, trivial, fun t ht => ?_⟩
  cases ht
  refine ⟨⟨rfl, ⟨rfl, rfl⟩, by simp⟩, trivial, fun t ht => ?_⟩
  cases ht
  refine ⟨⟨.inr ⟨rfl, by simp⟩, ⟨rfl, by simp, by simp⟩, by simp⟩, trivial, fun t ht => ?_⟩
  cases ht
  refine ⟨⟨.inr ⟨true, rfl⟩, fun _ => rfl⟩, trivial, fun t ht => ?_⟩
  cases ht
  refine ⟨rfl, trivial, fun t ht => ?_⟩
  cases ht
  exact ⟨rfl, trivial, fun _ _ => trivial⟩

theorem destructor_returns_iff_sample :
    (machine Nat).Legal InTime initial goodNight ↔
      ∀ fs, fs <+: goodNight → Yields Good (fun _ => False) ((machine Nat).run initial fs) :=
  destructor_returns_iff goodNight_legal

end EventLoopThread

end Muduo.Net
