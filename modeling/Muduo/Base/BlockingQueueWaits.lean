import Muduo.Base.BlockingQueue

namespace Muduo.Base.BlockingQueue
open Muduo.Lib Muduo.Net

variable {T : Type} {s : BlockingQueue T} {call : Put T} {ps : List (Put T)} {cs : List Nat}

/-- The free slots of a bounded queue. -/
def free (s : BlockingQueue T) : Nat := s.capacity.getD 0 - s.queue.length

/-- The items are handed on in order, and where a thread waits a notification is pending for
each of the `items` or `slots`. -/
structure Told (s : BlockingQueue T) (items slots : Nat) : Prop where
  bounded : ∀ n, s.capacity = some n → s.queue.length ≤ n
  in_order : s.stored.map Put.x = s.taken.map Prod.snd ++ s.queue
  consumers : s.notEmpty.Told items
  producers : s.notFull.Told slots
  unbounded : s.capacity = none → s.notFull.inside = []

def Sound (s : BlockingQueue T) : Prop := s.Told s.queue.length s.free

theorem empty_sound (capacity : Option Nat) : (empty T capacity).Sound where
  bounded n _ := Nat.zero_le n
  in_order := rfl
  consumers := Condition.told_idle rfl
  producers := Condition.told_idle rfl
  unbounded _ := rfl

theorem free_full (h : s.isFull) : s.free = 0 := by
  simp only [isFull] at h
  simp [free, h]

/-- Whoever comes to put may use up one of the notifications. -/
theorem Told.put (h : s.Told s.queue.length (s.free - 1)) {wake : Option Nat}
    (hm : s.notEmpty.MayWake wake) : ∃ t, s.put call wake = .ok t ∧ t.Sound := by
  by_cases hfull : s.isFull
  · refine ⟨_, put_full hfull wake, h.bounded, h.in_order, h.consumers, ?_, ?_⟩
    · change (s.notFull.wait call).Told s.free
      rw [free_full hfull]
      exact Condition.told_zero _
    · intro hnone
      change s.capacity = none at hnone
      simp [isFull, hnone] at hfull
  · refine ⟨_, put_room hfull wake, ?_, ?_, ?_, ?_, h.unbounded⟩
    · intro n hn
      have hle := h.bounded n hn
      have hne : n ≠ s.queue.length := by
        intro he
        exact hfull (by rw [isFull, hn, he])
      simp only [List.length_append, List.length_singleton]
      omega
    · simp [h.in_order]
    · simpa using h.consumers.notify hm
    · apply h.producers.mono
      simp only [free, List.length_append, List.length_singleton]
      omega

/-- Every call is accounted for: it has returned or is in a wait. -/
structure Accounts (s : BlockingQueue T) (ps : List (Put T)) (cs : List Nat) : Prop where
  puts : (s.stored ++ s.notFull.inside).Perm ps
  takes : (s.taken.map Prod.fst ++ s.notEmpty.inside).Perm cs

theorem put_accounts {t : BlockingQueue T} {wake : Option Nat} (hm : s.notEmpty.MayWake wake)
    (hp : (call :: (s.stored ++ s.notFull.inside)).Perm ps)
    (hc : (s.taken.map Prod.fst ++ s.notEmpty.inside).Perm cs)
    (ht : s.put call wake = .ok t) : t.Accounts ps cs := by
  by_cases hfull : s.isFull
  · cases (put_full hfull wake).symm.trans ht
    refine ⟨?_, hc⟩
    have hwait := (Condition.perm_wait s.notFull call).append_left s.stored
    exact (hwait.trans List.perm_middle).trans hp
  · cases (put_room hfull wake).symm.trans ht
    refine ⟨?_, ((Condition.perm_notify hm).append_left _).trans hc⟩
    simp only [List.append_assoc, List.singleton_append]
    exact List.perm_middle.trans hp

/-- How far the calls that are under way can still get before all of them wait. -/
def work (s : BlockingQueue T) : Nat :=
  (s.notEmpty.inside.length + s.notEmpty.woken.length) +
    (s.notFull.inside.length + s.notFull.woken.length)

/-- A call of `put` goes on, or goes back to wait. -/
theorem put_work {t : BlockingQueue T} {wake : Option Nat} (hm : s.notEmpty.MayWake wake)
    (ht : s.put call wake = .ok t) : t.work ≤ s.work + 1 := by
  by_cases hfull : s.isFull
  · cases (put_full hfull wake).symm.trans ht
    simp only [work, Condition.length_wait, Condition.woken_wait]
    omega
  · cases (put_room hfull wake).symm.trans ht
    have hwoken := Condition.woken_notify s.notEmpty wake
    simp only [work, Condition.length_notify hm]
    omega

/-- A call waits only where it has to, and not on both sides. -/
structure Settled (s : BlockingQueue T) : Prop where
  consumers : s.notEmpty.inside ≠ [] → s.queue = []
  producers : s.notFull.inside ≠ [] → s.isFull
  one_sided : s.capacity ≠ some 0 → s.notEmpty.inside = [] ∨ s.notFull.inside = []

theorem Sound.settled (h : s.Sound) (hrest : s.AtRest) : s.Settled := by
  have hin : ∀ {κ : Type} {c : Condition κ} {n : Nat}, c.Told n → c.woken = [] →
      c.inside ≠ [] → n = 0 := by
    intro κ c n htold hwoken hne
    have hnone := (List.append_eq_nil_iff.mp hwoken)
    have hwait : c.waiting ≠ [] := by
      intro hw
      apply hne
      rw [Condition.inside, hw, hnone.1, hnone.2]
      rfl
    have hle := htold hwait
    rw [hnone.1] at hle
    exact Nat.le_zero.mp hle
  have hc : s.notEmpty.inside ≠ [] → s.queue = [] := fun hne =>
    List.length_eq_zero_iff.mp (hin h.consumers hrest.1 hne)
  have hp : s.notFull.inside ≠ [] → s.isFull := by
    intro hne
    have hfree := hin h.producers hrest.2 hne
    cases hcap : s.capacity with
    | none => exact absurd (h.unbounded hcap) hne
    | some n =>
      have hle := h.bounded n hcap
      simp only [free, hcap, Option.getD_some] at hfree
      rw [isFull, hcap]
      congr 1
      omega
  refine ⟨hc, hp, fun hcap => ?_⟩
  by_contra hboth
  obtain ⟨hce, hpe⟩ := not_or.mp hboth
  have hfull := hp hpe
  rw [isFull, hc hce] at hfull
  exact hcap hfull

variable [DecidableEq T] {consumer : Nat}

/-- Whoever comes to take may use up one of the notifications. -/
theorem Told.take (h : s.Told (s.queue.length - 1) s.free) {wake : Option (Put T)}
    (hm : s.notFull.MayWake wake) : (s.take consumer wake).Sound := by
  cases hq : s.queue with
  | nil =>
    rw [take_empty hq]
    refine ⟨h.bounded, h.in_order, ?_, h.producers, h.unbounded⟩
    change (s.notEmpty.wait consumer).Told s.queue.length
    rw [hq]
    exact Condition.told_zero _
  | cons x queue =>
    rw [take_front hq]
    refine ⟨?_, ?_, ?_, ?_, ?_⟩
    · intro n hn
      have hle := h.bounded n hn
      simp only [hq, List.length_cons] at hle
      exact Nat.le_of_succ_le hle
    · simp [h.in_order, hq]
    · simpa [hq] using h.consumers
    · cases hcap : s.capacity with
      | none =>
        simp only [free, Option.getD_none, Nat.zero_sub]
        exact Condition.told_zero _
      | some n =>
        have hle := h.bounded n hcap
        simp only [Option.isSome_some, if_true]
        apply (h.producers.notify hm).mono
        simp only [hq, List.length_cons] at hle
        simp only [free, hcap, hq, List.length_cons, Option.getD_some]
        omega
    · intro hnone
      change s.capacity = none at hnone
      simpa [hnone] using h.unbounded hnone

theorem take_accounts {wake : Option (Put T)} (hm : s.notFull.MayWake wake)
    (hp : (s.stored ++ s.notFull.inside).Perm ps)
    (hc : (consumer :: (s.taken.map Prod.fst ++ s.notEmpty.inside)).Perm cs) :
    (s.take consumer wake).Accounts ps cs := by
  cases hq : s.queue with
  | nil =>
    rw [take_empty hq]
    refine ⟨hp, ?_⟩
    have hwait := (Condition.perm_wait s.notEmpty consumer).append_left (s.taken.map Prod.fst)
    exact (hwait.trans List.perm_middle).trans hc
  | cons x queue =>
    rw [take_front hq]
    refine ⟨?_, ?_⟩
    · cases hcap : s.capacity.isSome with
      | false => simpa using hp
      | true => simpa using ((Condition.perm_notify hm).append_left _).trans hp
    · simp only [List.map_append, List.map_cons, List.map_nil, List.append_assoc,
        List.singleton_append]
      exact List.perm_middle.trans hc

theorem take_work {wake : Option (Put T)} (hm : s.notFull.MayWake wake) :
    (s.take consumer wake).work ≤ s.work + 1 := by
  cases hq : s.queue with
  | nil =>
    rw [take_empty hq]
    simp only [work, Condition.length_wait, Condition.woken_wait]
    omega
  | cons x queue =>
    rw [take_front hq]
    have hwoken := Condition.woken_notify s.notFull wake
    cases hcap : s.capacity.isSome with
    | false => simp only [work, Bool.false_eq_true, if_false]; omega
    | true =>
      simp only [work, if_true, Condition.length_notify hm]
      omega

/-- A thread that wakes up may go on as one that comes by, with its notification used up. -/
theorem Sound.step (h : s.Sound) {e : Event T} (he : (machine T).enabled s e) :
    ∃ t, (machine T).step s e = .ok t ∧ t.Sound := by
  have hslots : s.notFull.Told (s.free - 1) := h.producers.mono (Nat.sub_le _ _)
  have hitems : s.notEmpty.Told (s.queue.length - 1) := h.consumers.mono (Nat.sub_le _ _)
  have hempty : ∀ c : Condition (Put T), (∀ x, x ∈ c.inside → x ∈ s.notFull.inside) →
      s.capacity = none → c.inside = [] := by
    intro c hsub hnone
    apply List.eq_nil_iff_forall_not_mem.mpr
    intro x hx
    have hin := hsub x hx
    rw [h.unbounded hnone] at hin
    cases hin
  cases e with
  | put call wake => exact Told.put ⟨h.bounded, h.in_order, h.consumers, hslots, h.unbounded⟩ he.2
  | reput call wake =>
    have hresumed : Told { s with notFull := s.notFull.resume call } s.queue.length (s.free - 1) :=
      ⟨h.bounded, h.in_order, h.consumers, h.producers.resume,
        hempty _ fun _ => Condition.inside_resume⟩
    exact hresumed.put he.2
  | take consumer wake =>
    exact ⟨_, rfl, Told.take ⟨h.bounded, h.in_order, hitems, h.producers, h.unbounded⟩ he.2⟩
  | retake consumer wake =>
    have hresumed : Told { s with notEmpty := s.notEmpty.resume consumer }
        (s.queue.length - 1) s.free :=
      ⟨h.bounded, h.in_order, h.consumers.resume, h.producers, h.unbounded⟩
    exact ⟨_, rfl, hresumed.take he.2⟩
  | rouseProducer call =>
    exact ⟨_, rfl, h.bounded, h.in_order, h.consumers, h.producers.rouse,
      hempty _ fun _ => Condition.inside_rouse he⟩
  | rouseConsumer consumer =>
    exact ⟨_, rfl, h.bounded, h.in_order, h.consumers.rouse, h.producers, h.unbounded⟩

theorem Accounts.step (h : s.Accounts ps cs) {e : Event T} (he : (machine T).enabled s e)
    {t : BlockingQueue T} (ht : (machine T).step s e = .ok t) :
    t.Accounts (ps ++ putCalls [e]) (cs ++ takeCalls [e]) := by
  cases e with
  | put call wake =>
    refine put_accounts he.2 ?_ (by simpa [takeCalls] using h.takes) ht
    exact (h.puts.cons call).trans (List.perm_append_singleton call ps).symm
  | reput call wake =>
    refine put_accounts (s := { s with notFull := s.notFull.resume call }) he.2 ?_
      (by simpa [takeCalls] using h.takes) ht
    have hresume := (Condition.perm_resume he.1).append_left s.stored
    simpa [putCalls] using List.perm_middle.symm.trans (hresume.trans h.puts)
  | take consumer wake =>
    cases ht
    refine take_accounts he.2 (by simpa [putCalls] using h.puts) ?_
    exact (h.takes.cons consumer).trans (List.perm_append_singleton consumer cs).symm
  | retake consumer wake =>
    cases ht
    refine take_accounts (s := { s with notEmpty := s.notEmpty.resume consumer }) he.2
      (by simpa [putCalls] using h.puts) ?_
    have hresume := (Condition.perm_resume he.1).append_left (s.taken.map Prod.fst)
    simpa [takeCalls] using List.perm_middle.symm.trans (hresume.trans h.takes)
  | rouseProducer call =>
    cases ht
    refine ⟨?_, by simpa [takeCalls] using h.takes⟩
    simpa [putCalls] using ((Condition.perm_rouse he).append_left _).trans h.puts
  | rouseConsumer consumer =>
    cases ht
    refine ⟨by simpa [putCalls] using h.puts, ?_⟩
    simpa [takeCalls] using ((Condition.perm_rouse he).append_left _).trans h.takes

theorem run_kept (capacity : Option Nat) {es : List (Event T)}
    (hl : (machine T).Legal (fun _ _ => True) (empty T capacity) es) :
    Yields (fun s => s.Sound ∧ s.Accounts (putCalls es) (takeCalls es)) (fun _ => False)
      ((machine T).run (empty T capacity) es) := by
  have hstart : (empty T capacity).Sound ∧
      (empty T capacity).Accounts (putCalls (T := T) []) (takeCalls (T := T) []) :=
    ⟨empty_sound capacity, .refl _, .refl _⟩
  refine Machine.run_history
    (R := fun s past => s.Sound ∧ s.Accounts (putCalls past) (takeCalls past)) ?_ hstart hl
  intro s past e hs he _
  obtain ⟨t, ht, hsound⟩ := hs.1.step he
  have haccounts := hs.2.step he ht
  rw [ht]
  exact ⟨hsound, by simpa [putCalls, takeCalls] using haccounts⟩

/-- Nothing that was put is lost, handed on twice or out of turn, every call has returned or
waits, and for each item and each free slot a waiting thread has been notified. -/
structure Orderly (s : BlockingQueue T) (es : List (Event T)) : Prop where
  bounded : ∀ n, s.capacity = some n → s.queue.length ≤ n
  in_order : s.stored.map Put.x = s.taken.map Prod.snd ++ s.queue
  puts_made : (s.stored ++ s.notFull.inside).Perm (putCalls es)
  takes_made : (s.taken.map Prod.fst ++ s.notEmpty.inside).Perm (takeCalls es)
  item_told : s.notEmpty.waiting ≠ [] → s.queue.length ≤ s.notEmpty.notified.length
  slot_told : s.notFull.waiting ≠ [] → s.free ≤ s.notFull.notified.length

theorem calls_orderly (capacity : Option Nat) {es : List (Event T)}
    (hl : (machine T).Legal (fun _ _ => True) (empty T capacity) es) :
    Yields (Orderly · es) (fun _ => False) ((machine T).run (empty T capacity) es) := by
  apply (run_kept capacity hl).mono
  intro s hs
  obtain ⟨hsound, haccounts⟩ := hs
  exact ⟨hsound.bounded, hsound.in_order, haccounts.puts, haccounts.takes, hsound.consumers,
    hsound.producers⟩

/-- Two producers and a consumer at a queue of one slot: the second producer waits, is woken for
no reason and waits again, and the third call gets in before it is let in. -/
def rushHour : List (Event Nat) :=
  [.take 1 none, .put ⟨2, 20⟩ (some 1), .put ⟨3, 30⟩ none, .rouseProducer ⟨3, 30⟩,
    .reput ⟨3, 30⟩ none, .retake 1 (some ⟨3, 30⟩), .put ⟨2, 21⟩ none, .reput ⟨3, 30⟩ none,
    .take 1 (some ⟨3, 30⟩), .reput ⟨3, 30⟩ none]

theorem calls_orderly_sample :
    Yields (Orderly · rushHour) (fun _ => False)
      ((machine Nat).run (empty Nat (some 1)) rushHour) :=
  calls_orderly (some 1) (by decide)

/-- A thread that goes on either leaves, perhaps waking one other, or waits again. -/
theorem Sound.resumes (h : s.Sound) {e : Event T} (he : (machine T).enabled s e)
    (hr : Resumes e) {t : BlockingQueue T} (ht : (machine T).step s e = .ok t) :
    t.Sound ∧ t.work < s.work := by
  have hsound : t.Sound := by
    obtain ⟨u, hu, hs⟩ := h.step he
    cases hu.symm.trans ht
    exact hs
  refine ⟨hsound, ?_⟩
  cases e with
  | reput call wake =>
    have hle := put_work (s := { s with notFull := s.notFull.resume call }) he.2 ht
    have hinside := Condition.length_resume he.1
    have hwoken := Condition.woken_resume he.1
    simp only [work] at hle ⊢
    omega
  | retake consumer wake =>
    cases ht
    have hle : ({ s with notEmpty := s.notEmpty.resume consumer }.take consumer wake).work ≤
        { s with notEmpty := s.notEmpty.resume consumer }.work + 1 := take_work he.2
    have hinside := Condition.length_resume he.1
    have hwoken := Condition.woken_resume he.1
    simp only [work] at hle ⊢
    omega
  | put call wake => cases hr
  | take consumer wake => cases hr
  | rouseProducer call => cases hr
  | rouseConsumer consumer => cases hr

theorem exists_resumes (hrest : ¬s.AtRest) : ∃ e, (machine T).enabled s e ∧ Resumes e := by
  rcases not_and_or.mp hrest with hne | hne
  · obtain ⟨consumer, hmem⟩ := List.exists_mem_of_ne_nil _ hne
    obtain ⟨wake, hm⟩ := s.notFull.exists_mayWake
    exact ⟨.retake consumer wake, ⟨Condition.woken_of_mem hmem, hm⟩, trivial⟩
  · obtain ⟨call, hmem⟩ := List.exists_mem_of_ne_nil _ hne
    obtain ⟨wake, hm⟩ := s.notEmpty.exists_mayWake
    exact ⟨.reput call wake, ⟨Condition.woken_of_mem hmem, hm⟩, trivial⟩

/-- Once no new calls are made, the threads that have been woken go on a bounded number of times,
in whatever order, and then no call waits that could return. -/
theorem calls_settle {capacity : Option Nat} {es : List (Event T)}
    (hs : (machine T).Reaches (fun _ _ => True) (empty T capacity) es s) {fs : List (Event T)}
    {t : BlockingQueue T} (ht : (machine T).Reaches (fun _ e => Resumes e) s fs t) :
    fs.length ≤ s.work ∧ (t.Settled ∨ ∃ e, (machine T).enabled t e ∧ Resumes e) := by
  have hsound : s.Sound := ((run_kept capacity hs.1).of_ok hs.2).1
  obtain ⟨htsound, hle⟩ := ht.bounded (I := Sound) (μ := work)
    (fun u e v hu he hr hv => hu.resumes he hr hv) hsound
  refine ⟨by omega, ?_⟩
  by_cases hrest : t.AtRest
  · exact .inl (htsound.settled hrest)
  · exact .inr (exists_resumes hrest)

/-- An item for a consumer that is notified, and a producer that waits for its slot. -/
def rushed : BlockingQueue Nat where
  capacity := some 1
  queue := [20]
  notEmpty := ⟨[], [1], []⟩
  notFull := ⟨[⟨3, 30⟩], [], []⟩
  stored := [⟨2, 20⟩]
  taken := []

def served : BlockingQueue Nat where
  capacity := some 1
  queue := [30]
  notEmpty := .empty
  notFull := .empty
  stored := [⟨2, 20⟩, ⟨3, 30⟩]
  taken := [(1, 20)]

theorem calls_settle_sample :
    2 ≤ rushed.work ∧ (served.Settled ∨ ∃ e, (machine Nat).enabled served e ∧ Resumes e) := by
  have hs : (machine Nat).Reaches (fun _ _ => True) (empty Nat (some 1))
      [.take 1 none, .put ⟨2, 20⟩ (some 1), .put ⟨3, 30⟩ none] rushed := ⟨by decide, rfl⟩
  have ht : (machine Nat).Reaches (fun _ e => Resumes e) rushed
      [.retake 1 (some ⟨3, 30⟩), .reput ⟨3, 30⟩ none] served := by
    refine ⟨⟨by decide, trivial, fun t h => ?_⟩, rfl⟩
    cases h
    exact ⟨by decide, trivial, fun t _ => trivial⟩
  exact calls_settle hs ht

end Muduo.Base.BlockingQueue
