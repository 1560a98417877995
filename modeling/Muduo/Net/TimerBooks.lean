import Muduo.Net.TimerQueue

namespace Muduo.Net
open Muduo.Lib

namespace TimerQueue

variable {q : TimerQueue} {loose : List Addr} {p : Addr} {t : Timer}

/-- Both sets hold exactly the living timers outside `loose`, each under its own key. -/
structure Books (q : TimerQueue) (loose : List Addr) : Prop where
  timers : ∀ w p, (⟨w, p⟩ : Entry) ∈ q.timers ↔
    ∃ t, q.heap p = some t ∧ t.expiration = w ∧ p ∉ loose
  active : ∀ p n, (⟨p, n⟩ : ActiveTimer) ∈ q.activeTimers ↔
    ∃ t, q.heap p = some t ∧ t.sequence = n ∧ p ∉ loose
  size : q.timers.size = q.activeTimers.size
  live : ∀ p ∈ loose, ∃ t, q.heap p = some t
  nodup : loose.Nodup
  address : ∀ p t, q.heap p = some t → p < uintptrMax
  counted : ∀ p t, q.heap p = some t → t.sequence ≤ q.numCreated
  distinct : ∀ p p' t t', q.heap p = some t → q.heap p' = some t' →
    t.sequence = t'.sequence → p = p'

theorem deref_of_live (h : q.heap p = some t) : q.deref p = .ok t := by
  simp only [deref, h]

theorem initial_books : initial.Books [] where
  timers w p := by simp [initial]
  active p n := by simp [initial]
  size := rfl
  live := by simp
  nodup := .nil
  address := by simp [initial]
  counted := by simp [initial]
  distinct := by simp [initial]

/-- The two sets of a queue and its objects are all that the books speak of. -/
theorem Books.congr {q' : TimerQueue} (hb : q.Books loose) (hh : q'.heap = q.heap)
    (ht : q'.timers = q.timers) (ha : q'.activeTimers = q.activeTimers)
    (hn : q'.numCreated = q.numCreated) : q'.Books loose where
  timers := by rw [ht, hh]; exact hb.timers
  active := by rw [ha, hh]; exact hb.active
  size := by rw [ht, ha]; exact hb.size
  live := by rw [hh]; exact hb.live
  nodup := hb.nodup
  address := by rw [hh]; exact hb.address
  counted := by rw [hh, hn]; exact hb.counted
  distinct := by rw [hh]; exact hb.distinct

theorem Books.perm {loose' : List Addr} (hb : q.Books loose) (h : loose.Perm loose') :
    q.Books loose' where
  timers w p := by rw [hb.timers, h.mem_iff]
  active p n := by rw [hb.active, h.mem_iff]
  size := hb.size
  live p hp := hb.live p (h.mem_iff.mpr hp)
  nodup := h.nodup_iff.mp hb.nodup
  address := hb.address
  counted := hb.counted
  distinct := hb.distinct

theorem Books.newTimer (hb : q.Books loose) (hp : q.heap p = none) (hlt : p < uintptrMax)
    (when : Timestamp) (interval : Int) (repeats : Bool) :
    (q.newTimer p when interval repeats).Books (p :: loose) := by
  have hfresh : p ∉ loose := fun h => by
    obtain ⟨t, ht⟩ := hb.live p h
    rw [hp] at ht
    exact nomatch ht
  -- off `p` the heap is the old one, and `p` itself is loose
  have hother : ∀ p' (P : Timer → Prop), (∃ t, q.heap p' = some t ∧ P t ∧ p' ∉ loose) ↔
      ∃ t, (q.newTimer p when interval repeats).heap p' = some t ∧ P t ∧ p' ∉ p :: loose := by
    intro p' P
    by_cases h : p' = p
    · subst h
      simp [hp]
    · simp [TimerQueue.newTimer, h]
  refine ⟨fun w p' => ?_, fun p' n => ?_, hb.size, ?_, ?_, ?_, ?_, ?_⟩
  · exact (hb.timers w p').trans (hother p' (fun t => t.expiration = w))
  · exact (hb.active p' n).trans (hother p' (fun t => t.sequence = n))
  · intro p' hp'
    by_cases h : p' = p
    · exact ⟨_, by rw [h]; exact Function.update_self ..⟩
    · obtain ⟨t, ht⟩ := hb.live p' (List.mem_of_ne_of_mem h hp')
      exact ⟨t, by simp only [TimerQueue.newTimer, Function.update_of_ne h, ht]⟩
  · exact List.nodup_cons.mpr ⟨hfresh, hb.nodup⟩
  · intro p' t ht
    by_cases h : p' = p
    · rwa [h]
    · exact hb.address p' t (by simpa [TimerQueue.newTimer, Function.update_of_ne h] using ht)
  · intro p' t ht
    by_cases h : p' = p
    · subst h
      simp only [TimerQueue.newTimer, Function.update_self, Option.some.injEq] at ht
      subst ht
      exact le_refl _
    · have := hb.counted p' t (by simpa [TimerQueue.newTimer, Function.update_of_ne h] using ht)
      exact Nat.le_succ_of_le this
  · intro p₁ p₂ t₁ t₂ h₁ h₂ heq
    by_cases e₁ : p₁ = p
    · by_cases e₂ : p₂ = p
      · rw [e₁, e₂]
      · subst e₁
        simp only [TimerQueue.newTimer, Function.update_self, Option.some.injEq,
          Function.update_of_ne e₂] at h₁ h₂
        have := hb.counted p₂ t₂ h₂
        subst h₁
        simp only at heq
        omega
    · by_cases e₂ : p₂ = p
      · subst e₂
        simp only [TimerQueue.newTimer, Function.update_self, Option.some.injEq,
          Function.update_of_ne e₁] at h₁ h₂
        have := hb.counted p₁ t₁ h₁
        subst h₂
        simp only at heq
        omega
      · simp only [TimerQueue.newTimer, Function.update_of_ne e₁, Function.update_of_ne e₂]
          at h₁ h₂
        exact hb.distinct p₁ p₂ t₁ t₂ h₁ h₂ heq

/-- The queue with a living timer entered in both sets. -/
def enter (q : TimerQueue) (p : Addr) (t : Timer) : TimerQueue :=
  { q with
    timers := q.timers.insert ⟨t.expiration, p⟩
    activeTimers := q.activeTimers.insert ⟨p, t.sequence⟩ }

theorem Books.not_mem_timers (hb : q.Books loose) (hp : p ∈ loose) (w : Timestamp) :
    (⟨w, p⟩ : Entry) ∉ q.timers := by
  intro h
  obtain ⟨-, -, -, hout⟩ := (hb.timers w p).mp h
  exact hout hp

theorem Books.not_mem_active (hb : q.Books loose) (hp : p ∈ loose) (n : Nat) :
    (⟨p, n⟩ : ActiveTimer) ∉ q.activeTimers := by
  intro h
  obtain ⟨-, -, -, hout⟩ := (hb.active p n).mp h
  exact hout hp

theorem Books.insert (hb : q.Books (p :: loose)) (ht : q.heap p = some t) :
    q.insert p = .ok (q.earliestChanged t.expiration, q.enter p t) ∧
      (q.enter p t).Books loose := by
  have hmem := List.mem_cons_self (a := p) (l := loose)
  have htimers := hb.not_mem_timers hmem t.expiration
  have hactive := hb.not_mem_active hmem t.sequence
  obtain ⟨hfresh, hnodup⟩ := List.nodup_cons.mp hb.nodup
  have hsize : (q.timers.insert ⟨t.expiration, p⟩).size =
      (q.activeTimers.insert ⟨p, t.sequence⟩).size := by
    rw [OrderedSet.size_insert htimers, OrderedSet.size_insert hactive, hb.size]
  constructor
  · simp only [TimerQueue.insert, check_pos hb.size, deref_of_live ht, check_pos htimers,
      check_pos hactive, check_pos hsize, ok_bind]
    rfl
  · -- every other timer is where it was
    have hother : ∀ p', p' ≠ p → (p' ∉ loose ↔ p' ∉ p :: loose) := by
      intro p' h
      simp [h]
    refine ⟨fun w p' => ?_, fun p' n => ?_, hsize, fun p' h => hb.live p' (.tail p h), hnodup,
      hb.address, hb.counted, hb.distinct⟩
    · simp only [enter, OrderedSet.mem_insert, Entry.mk.injEq, hb.timers]
      by_cases h : p' = p
      · subst h
        simp [ht, hfresh, eq_comm]
      · simp only [h, and_false, false_or, hother p' h]
    · simp only [enter, OrderedSet.mem_insert, ActiveTimer.mk.injEq, hb.active]
      by_cases h : p' = p
      · subst h
        simp [ht, hfresh, eq_comm]
      · simp only [h, false_and, false_or, hother p' h]

/-- Giving a loose timer another object of the same number changes nothing in the books. -/
theorem Books.rewrite (hb : q.Books loose) (hp : p ∈ loose) (ht : q.heap p = some t)
    {t' : Timer} (hn : t'.sequence = t.sequence) :
    ({ q with heap := Function.update q.heap p (some t') } : TimerQueue).Books loose := by
  -- each object of the new heap is one of the old heap under the same number
  have hold : ∀ p' u, Function.update q.heap p (some t') p' = some u →
      ∃ u', q.heap p' = some u' ∧ u'.sequence = u.sequence := by
    intro p' u hu
    by_cases h : p' = p
    · subst h
      rw [Function.update_self, Option.some.injEq] at hu
      exact ⟨t, ht, by rw [← hn, hu]⟩
    · rw [Function.update_of_ne h] at hu
      exact ⟨u, hu, rfl⟩
  have hsame : ∀ p' (P : Timer → Prop), (∃ u, q.heap p' = some u ∧ P u ∧ p' ∉ loose) ↔
      ∃ u, Function.update q.heap p (some t') p' = some u ∧ P u ∧ p' ∉ loose := by
    intro p' P
    by_cases h : p' = p
    · subst h
      simp [hp]
    · simp [h]
  refine ⟨fun w p' => ?_, fun p' n => ?_, hb.size, ?_, hb.nodup, ?_, ?_, ?_⟩
  · exact (hb.timers w p').trans (hsame p' (fun u => u.expiration = w))
  · exact (hb.active p' n).trans (hsame p' (fun u => u.sequence = n))
  · intro p' hp'
    by_cases h : p' = p
    · exact ⟨t', by rw [h]; exact Function.update_self ..⟩
    · obtain ⟨u, hu⟩ := hb.live p' hp'
      exact ⟨u, by simpa [h] using hu⟩
  · intro p' u hu
    obtain ⟨u', hu', -⟩ := hold p' u hu
    exact hb.address p' u' hu'
  · intro p' u hu
    obtain ⟨u', hu', heq⟩ := hold p' u hu
    have := hb.counted p' u' hu'
    simp only
    omega
  · intro p₁ p₂ u₁ u₂ h₁ h₂ heq
    obtain ⟨v₁, hv₁, he₁⟩ := hold p₁ u₁ h₁
    obtain ⟨v₂, hv₂, he₂⟩ := hold p₂ u₂ h₂
    exact hb.distinct p₁ p₂ v₁ v₂ hv₁ hv₂ (he₁.trans (heq.trans he₂.symm))

/-- Both sets without a timer. -/
def leave (q : TimerQueue) (p : Addr) (t : Timer) : TimerQueue :=
  { q with
    timers := q.timers.erase ⟨t.expiration, p⟩
    activeTimers := q.activeTimers.erase ⟨p, t.sequence⟩ }

theorem Books.leave (hb : q.Books loose) (hp : p ∉ loose) (ht : q.heap p = some t) :
    (q.leave p t).Books (p :: loose) := by
  have htimers : ⟨t.expiration, p⟩ ∈ q.timers := (hb.timers _ p).mpr ⟨t, ht, rfl, hp⟩
  have hactive : ⟨p, t.sequence⟩ ∈ q.activeTimers := (hb.active p _).mpr ⟨t, ht, rfl, hp⟩
  refine ⟨fun w p' => ?_, fun p' n => ?_, ?_, ?_, List.nodup_cons.mpr ⟨hp, hb.nodup⟩,
    hb.address, hb.counted, hb.distinct⟩
  · simp only [TimerQueue.leave, OrderedSet.mem_erase, ne_eq, Entry.mk.injEq, hb.timers]
    by_cases h : p' = p
    · subst h
      simpa [ht] using fun hne heq => absurd heq.symm hne
    · simp [h]
  · simp only [TimerQueue.leave, OrderedSet.mem_erase, ne_eq, ActiveTimer.mk.injEq, hb.active]
    by_cases h : p' = p
    · subst h
      simpa [ht] using fun hne heq => absurd heq.symm hne
    · simp [h]
  · have h₁ := OrderedSet.size_erase htimers
    have h₂ := OrderedSet.size_erase hactive
    have h₃ := hb.size
    simp only [TimerQueue.leave]
    omega
  · intro p' h
    rcases List.mem_cons.mp h with rfl | h
    · exact ⟨t, ht⟩
    · exact hb.live p' h

/-- A loose timer can be freed. -/
theorem Books.free (hb : q.Books (p :: loose)) :
    ({ q with heap := Function.update q.heap p none } : TimerQueue).Books loose := by
  obtain ⟨hfresh, hnodup⟩ := List.nodup_cons.mp hb.nodup
  have hold : ∀ p' u, Function.update q.heap p none p' = some u → q.heap p' = some u := by
    intro p' u hu
    by_cases h : p' = p
    · subst h
      rw [Function.update_self] at hu
      exact nomatch hu
    · rwa [Function.update_of_ne h] at hu
  have hsame : ∀ p' (P : Timer → Prop), (∃ u, q.heap p' = some u ∧ P u ∧ p' ∉ p :: loose) ↔
      ∃ u, Function.update q.heap p none p' = some u ∧ P u ∧ p' ∉ loose := by
    intro p' P
    by_cases h : p' = p
    · subst h
      simp
    · simp [h]
  refine ⟨fun w p' => ?_, fun p' n => ?_, hb.size, ?_, hnodup, ?_, ?_, ?_⟩
  · exact (hb.timers w p').trans (hsame p' (fun u => u.expiration = w))
  · exact (hb.active p' n).trans (hsame p' (fun u => u.sequence = n))
  · intro p' hp'
    obtain ⟨u, hu⟩ := hb.live p' (.tail p hp')
    have h : p' ≠ p := fun h => hfresh (h ▸ hp')
    exact ⟨u, by simpa [h] using hu⟩
  · exact fun p' u hu => hb.address p' u (hold p' u hu)
  · exact fun p' u hu => hb.counted p' u (hold p' u hu)
  · exact fun p₁ p₂ u₁ u₂ h₁ h₂ => hb.distinct p₁ p₂ u₁ u₂ (hold p₁ u₁ h₁) (hold p₂ u₂ h₂)

/-- The queue with a timer freed; `listed` tells whether `activeTimers_` still had it. -/
def release (q : TimerQueue) (p : Addr) (t : Timer) (listed : Bool) : TimerQueue :=
  { q with
    heap := Function.update q.heap p none
    freed := q.freed ++ [⟨t.sequence, false, listed⟩] }

theorem Books.release (hb : q.Books (p :: loose)) (t : Timer) (listed : Bool) :
    (q.release p t listed).Books loose :=
  hb.free.congr rfl rfl rfl rfl

theorem delete_eq (listed : Bool) (ht : q.heap p = some t) (htimers : ∀ w, ⟨w, p⟩ ∉ q.timers)
    (hlisted : listed = true ↔ ∃ n, (⟨p, n⟩ : ActiveTimer) ∈ q.activeTimers) :
    q.delete p = .ok (q.release p t listed) := by
  have hin : q.timers.elems.any (·.timer = p) = false := by
    rw [List.any_eq_false]
    intro e he
    simp only [decide_eq_true_eq]
    rintro rfl
    exact htimers e.expiration he
  have hactive : q.activeTimers.elems.any (·.timer = p) = listed := by
    rw [Bool.eq_iff_iff, hlisted, List.any_eq_true]
    constructor
    · rintro ⟨a, ha, hp⟩
      simp only [decide_eq_true_eq] at hp
      subst hp
      exact ⟨a.sequence, ha⟩
    · rintro ⟨n, hn⟩
      exact ⟨_, hn, by simp⟩
  simp only [delete, deref_of_live ht, ok_bind, hin, hactive]
  rfl

/-- A timer in the sets is cancelled: it goes from `timers_`, is freed, and goes from
`activeTimers_`. -/
theorem Books.cancelActive (hb : q.Books loose) (hp : p ∉ loose) (ht : q.heap p = some t) :
    q.cancelActive ⟨p, t.sequence⟩ = .ok ((q.leave p t).release p t true) := by
  have htimers : ⟨t.expiration, p⟩ ∈ q.timers := (hb.timers _ p).mpr ⟨t, ht, rfl, hp⟩
  have hactive : ⟨p, t.sequence⟩ ∈ q.activeTimers := (hb.active p _).mpr ⟨t, ht, rfl, hp⟩
  have hgone : ∀ w, ⟨w, p⟩ ∉ q.timers.erase ⟨t.expiration, p⟩ := by
    intro w h
    obtain ⟨hne, h⟩ := OrderedSet.mem_erase.mp h
    obtain ⟨u, hu, rfl, -⟩ := (hb.timers w p).mp h
    rw [ht, Option.some.injEq] at hu
    exact hne (by rw [hu])
  have hdel := delete_eq (q := { q with timers := q.timers.erase ⟨t.expiration, p⟩ }) true
    ht hgone (iff_of_true rfl ⟨_, hactive⟩)
  simp only [TimerQueue.cancelActive, deref_of_live ht, check_pos htimers, hdel, ok_bind]
  rfl

/-- `cancelInLoop` either finds the timer in the sets, under the number it was given, or at
most notes the id. -/
theorem Books.cancelInLoop (hb : q.Books loose) (id : TimerId) :
    (∃ t, q.heap id.timer = some t ∧ t.sequence = id.sequence ∧ id.timer ∉ loose ∧
      q.cancelInLoop id = .ok ((q.leave id.timer t).release id.timer t true) ∧
      ((q.leave id.timer t).release id.timer t true).Books loose) ∨
    (⟨id.timer, id.sequence⟩ ∉ q.activeTimers ∧
      q.cancelInLoop id = .ok (if q.callingExpiredTimers then
        { q with cancelingTimers := q.cancelingTimers.insert ⟨id.timer, id.sequence⟩ }
      else q)) := by
  obtain ⟨p, n⟩ := id
  by_cases h : ⟨p, n⟩ ∈ q.activeTimers
  · obtain ⟨t, ht, rfl, hp⟩ := (hb.active _ _).mp h
    have hb' := (hb.leave hp ht).release t true
    refine .inl ⟨t, ht, rfl, hp, ?_, hb'⟩
    simp only [TimerQueue.cancelInLoop, check_pos hb.size, if_pos h, hb.cancelActive hp ht,
      ok_bind, check_pos hb'.size]
  · refine .inr ⟨h, ?_⟩
    simp only [TimerQueue.cancelInLoop, check_pos hb.size, if_neg h, ok_bind]
    split
    · rfl
    · rfl

theorem deactivate_eq {es : List Entry} (hnodup : (es.map Entry.timer).Nodup)
    (hes : ∀ e ∈ es, ∃ t, q.heap e.timer = some t ∧ ⟨e.timer, t.sequence⟩ ∈ q.activeTimers)
    (hkey : ∀ p n t, (⟨p, n⟩ : ActiveTimer) ∈ q.activeTimers → q.heap p = some t →
      n = t.sequence) :
    ∃ a : OrderedSet ActiveTimer, q.deactivate es = .ok { q with activeTimers := a } ∧
      (∀ p n, (⟨p, n⟩ : ActiveTimer) ∈ a ↔
        ⟨p, n⟩ ∈ q.activeTimers ∧ p ∉ es.map Entry.timer) ∧
      a.size + es.length = q.activeTimers.size := by
  induction es generalizing q with
  | nil => exact ⟨q.activeTimers, rfl, by simp, rfl⟩
  | cons e es ih =>
    obtain ⟨t, ht, hmem⟩ := hes e List.mem_cons_self
    rw [List.map_cons, List.nodup_cons] at hnodup
    obtain ⟨a, ha, hkept, hsize⟩ := ih
      (q := { q with activeTimers := q.activeTimers.erase ⟨e.timer, t.sequence⟩ }) hnodup.2
      (by
        intro e' he'
        obtain ⟨t', ht', hmem'⟩ := hes e' (.tail e he')
        have hne : e'.timer ≠ e.timer := fun h => hnodup.1 (h ▸ List.mem_map_of_mem he')
        exact ⟨t', ht', OrderedSet.mem_erase.mpr ⟨by simp [hne], hmem'⟩⟩)
      (fun p n t h => hkey p n t (OrderedSet.mem_erase.mp h).2)
    refine ⟨a, ?_, fun p n => ?_, ?_⟩
    · simp only [deactivate, deref_of_live ht, check_pos hmem, ok_bind, ha]
    · rw [hkept, OrderedSet.mem_erase, List.map_cons, List.mem_cons, ne_eq, ActiveTimer.mk.injEq]
      constructor
      · rintro ⟨⟨hne, h⟩, hout⟩
        refine ⟨h, ?_⟩
        rintro (rfl | hin)
        · exact hne ⟨rfl, hkey _ _ _ h ht⟩
        · exact hout hin
      · rintro ⟨h, hout⟩
        exact ⟨⟨fun heq => hout (.inl heq.1), h⟩, fun hin => hout (.inr hin)⟩
    · have := OrderedSet.size_erase hmem
      simp only [List.length_cons] at hsize ⊢
      omega

def expiredAt (q : TimerQueue) (now : Timestamp) : List Entry := q.timers.below ⟨now, uintptrMax⟩

theorem Books.mem_expiredAt (hb : q.Books loose) {now : Timestamp} {e : Entry} :
    e ∈ q.expiredAt now ↔ e ∈ q.timers ∧ e.expiration ≤ now := by
  rw [expiredAt, OrderedSet.mem_below]
  refine and_congr_right fun he => Entry.lt_sentry ?_
  obtain ⟨t, ht, -⟩ := (hb.timers e.expiration e.timer).mp he
  exact hb.address _ t ht

theorem Books.expiredAt_nodup (hb : q.Books loose) (now : Timestamp) :
    ((q.expiredAt now).map Entry.timer).Nodup := by
  have hnodup : (q.expiredAt now).Nodup := (OrderedSet.below_sorted q.timers _).imp ne_of_lt
  refine hnodup.map_on ?_
  intro e he e' he' heq
  obtain ⟨t, ht, hw, -⟩ := (hb.timers _ _).mp (hb.mem_expiredAt.mp he).1
  obtain ⟨t', ht', hw', -⟩ := (hb.timers _ _).mp (hb.mem_expiredAt.mp he').1
  rw [heq, ht', Option.some.injEq] at ht
  exact Entry.ext (by rw [← hw, ← hw', ht]) heq

/-- The sentry cuts the set just behind `now`. -/
theorem Books.above_iff (hb : q.Books loose) {now : Timestamp} (e : Entry) :
    e ∈ q.timers.above ⟨now, uintptrMax⟩ ↔ e ∈ q.timers ∧ now < e.expiration := by
  rw [OrderedSet.mem_above]
  refine and_congr_right fun he => ?_
  obtain ⟨t, ht, -⟩ := (hb.timers e.expiration e.timer).mp he
  rw [← not_lt, Entry.lt_sentry (hb.address _ t ht), not_le]

/-- `getExpired` moves exactly the timers that have expired out of both sets. -/
theorem Books.getExpired (hb : q.Books loose) (now : Timestamp) :
    ∃ a : OrderedSet ActiveTimer,
      let q' := { q with timers := q.timers.above ⟨now, uintptrMax⟩, activeTimers := a }
      q.getExpired now = .ok (q.expiredAt now, q') ∧
        q'.Books ((q.expiredAt now).map Entry.timer ++ loose) := by
  have hexpired : ∀ p t, q.heap p = some t →
      (p ∈ (q.expiredAt now).map Entry.timer ↔ p ∉ loose ∧ t.expiration ≤ now) := by
    intro p t ht
    constructor
    · intro h
      obtain ⟨e, he, rfl⟩ := List.mem_map.mp h
      obtain ⟨hmem, hle⟩ := hb.mem_expiredAt.mp he
      obtain ⟨u, hu, hw, hout⟩ := (hb.timers e.expiration e.timer).mp hmem
      rw [ht, Option.some.injEq] at hu
      exact ⟨hout, by rw [hu, hw]; exact hle⟩
    · rintro ⟨hout, hle⟩
      have hmem := hb.mem_expiredAt.mpr ⟨(hb.timers _ p).mpr ⟨t, ht, rfl, hout⟩, hle⟩
      exact List.mem_map_of_mem (f := Entry.timer) hmem
  have hhead : ∀ e ∈ (q.timers.above ⟨now, uintptrMax⟩).elems.head?, now < e.expiration := by
    intro e he
    exact ((hb.above_iff e).mp (List.mem_of_mem_head? he)).2
  obtain ⟨a, ha, hkept, hsize⟩ := deactivate_eq
    (q := { q with timers := q.timers.above ⟨now, uintptrMax⟩ }) (hb.expiredAt_nodup now)
    (by
      intro e he
      obtain ⟨hmem, -⟩ := hb.mem_expiredAt.mp he
      obtain ⟨t, ht, -, hout⟩ := (hb.timers e.expiration e.timer).mp hmem
      exact ⟨t, ht, (hb.active _ _).mpr ⟨t, ht, rfl, hout⟩⟩)
    (by
      intro p n t h ht
      obtain ⟨u, hu, rfl, -⟩ := (hb.active p n).mp h
      rw [ht, Option.some.injEq] at hu
      rw [hu])
  have hsize' : (q.timers.above ⟨now, uintptrMax⟩).size = a.size := by
    have h₁ := OrderedSet.size_above q.timers ⟨now, uintptrMax⟩
    have h₂ := hb.size
    simp only [expiredAt] at hsize
    omega
  refine ⟨a, ?_, fun w p => ?_, fun p n => ?_, hsize', ?_, ?_, hb.address, hb.counted,
    hb.distinct⟩
  · simp only [TimerQueue.getExpired, check_pos hb.size, check_pos hhead, ok_bind]
    rw [show q.timers.below ⟨now, uintptrMax⟩ = q.expiredAt now from rfl, ha]
    simp only [ok_bind, check_pos hsize']
  · rw [hb.above_iff, hb.timers]
    constructor
    · rintro ⟨⟨t, ht, rfl, hout⟩, hlt⟩
      refine ⟨t, ht, rfl, ?_⟩
      rw [List.mem_append, hexpired p t ht]
      rintro (⟨-, hle⟩ | h)
      · exact absurd hle (not_le_of_gt hlt)
      · exact hout h
    · rintro ⟨t, ht, rfl, hout⟩
      rw [List.mem_append, hexpired p t ht, not_or, not_and] at hout
      exact ⟨⟨t, ht, rfl, hout.2⟩, not_le.mp (hout.1 hout.2)⟩
  · rw [hkept, hb.active]
    constructor
    · rintro ⟨⟨t, ht, rfl, hout⟩, hkeep⟩
      exact ⟨t, ht, rfl, fun h => (List.mem_append.mp h).elim hkeep hout⟩
    · rintro ⟨t, ht, rfl, hout⟩
      rw [List.mem_append, not_or] at hout
      exact ⟨⟨t, ht, rfl, hout.2⟩, hout.1⟩
  · intro p hp
    rcases List.mem_append.mp hp with h | h
    · obtain ⟨e, he, rfl⟩ := List.mem_map.mp h
      obtain ⟨t, ht, -⟩ := (hb.timers _ e.timer).mp (hb.mem_expiredAt.mp he).1
      exact ⟨t, ht⟩
    · exact hb.live p h
  · refine List.nodup_append'.mpr ⟨hb.expiredAt_nodup now, hb.nodup, ?_⟩
    intro p h hl
    obtain ⟨t, ht⟩ := hb.live p hl
    exact ((hexpired p t ht).mp h).1 hl

/-- A repeating timer that is not being cancelled goes back into the sets. -/
theorem Books.resetOne_restarts {w : Timestamp} (hb : q.Books (p :: loose)) (ht : q.heap p = some t)
    (hr : t.repeats = true ∧ ⟨p, t.sequence⟩ ∉ q.cancelingTimers) (now : Timestamp) :
    ∃ q' : TimerQueue, q' = { q with heap := Function.update q.heap p (some (t.restart now)) } ∧
      q.resetOne now ⟨w, p⟩ = .ok (q'.enter p (t.restart now)) ∧
      (q'.enter p (t.restart now)).Books loose := by
  have hb' := hb.rewrite List.mem_cons_self ht (Timer.restart_sequence t now)
  obtain ⟨hinsert, hbooks⟩ := hb'.insert (Function.update_self ..)
  refine ⟨_, rfl, ?_, hbooks⟩
  simp only [TimerQueue.resetOne, deref_of_live ht, ok_bind]
  rw [if_pos hr, hinsert, ok_bind]

/-- All others are freed. -/
theorem Books.resetOne_frees {w : Timestamp} (hb : q.Books (p :: loose)) (ht : q.heap p = some t)
    (hr : ¬(t.repeats = true ∧ ⟨p, t.sequence⟩ ∉ q.cancelingTimers)) (now : Timestamp) :
    q.resetOne now ⟨w, p⟩ = .ok (q.release p t false) ∧ (q.release p t false).Books loose := by
  have hmem := List.mem_cons_self (a := p) (l := loose)
  have hdel := delete_eq false ht (hb.not_mem_timers hmem)
    (iff_of_false nofun fun ⟨n, h⟩ => hb.not_mem_active hmem n h)
  refine ⟨?_, hb.release t false⟩
  simp only [TimerQueue.resetOne, deref_of_live ht, ok_bind]
  rw [if_neg hr, hdel]

theorem Books.resetOne {w : Timestamp} (hb : q.Books (p :: loose)) (ht : q.heap p = some t)
    (now : Timestamp) :
    (t.repeats = true ∧ ⟨p, t.sequence⟩ ∉ q.cancelingTimers ∧
      (∃ q' : TimerQueue, q' = { q with heap := Function.update q.heap p (some (t.restart now)) } ∧
        q.resetOne now ⟨w, p⟩ = .ok (q'.enter p (t.restart now)) ∧
        (q'.enter p (t.restart now)).Books loose)) ∨
    (q.resetOne now ⟨w, p⟩ = .ok (q.release p t false) ∧ (q.release p t false).Books loose) := by
  by_cases hr : t.repeats = true ∧ ⟨p, t.sequence⟩ ∉ q.cancelingTimers
  · exact .inl ⟨hr.1, hr.2, hb.resetOne_restarts ht hr now⟩
  · exact .inr (hb.resetOne_frees ht hr now)

theorem Books.addTimerInLoop (hb : q.Books (p :: loose)) (ht : q.heap p = some t) :
    ∃ fd, fd = (if q.earliestChanged t.expiration then .resetTimerfd t.expiration q.clock
        else q.timerfd) ∧
      q.addTimerInLoop p = .ok { q.enter p t with timerfd := fd } ∧
      ({ q.enter p t with timerfd := fd } : TimerQueue).Books loose := by
  obtain ⟨hinsert, hbooks⟩ := hb.insert ht
  have hderef : (q.enter p t).deref p = .ok t := deref_of_live ht
  refine ⟨_, rfl, ?_, hbooks.congr rfl rfl rfl rfl⟩
  simp only [TimerQueue.addTimerInLoop, hinsert, ok_bind, hderef]
  split
  · rfl
  · rfl

theorem Books.beginRead (hb : q.Books loose) :
    ∃ a : OrderedSet ActiveTimer,
      let q' := { q with
        timerfd := q.timerfd.readTimerfd
        timers := q.timers.above ⟨q.clock, uintptrMax⟩
        activeTimers := a
        callingExpiredTimers := true
        cancelingTimers := .empty }
      q.beginRead = .ok (q.expiredAt q.clock, q') ∧
        q'.Books ((q.expiredAt q.clock).map Entry.timer ++ loose) := by
  have hb' : ({ q with timerfd := q.timerfd.readTimerfd } : TimerQueue).Books loose :=
    hb.congr rfl rfl rfl rfl
  obtain ⟨a, ha, hbooks⟩ := hb'.getExpired q.clock
  refine ⟨a, ?_, hbooks.congr rfl rfl rfl rfl⟩
  simp only [TimerQueue.beginRead, ha, ok_bind]
  rfl

theorem Books.nextExpire (hb : q.Books loose) : ∃ w, q.nextExpire = .ok w := by
  unfold TimerQueue.nextExpire
  split
  · exact ⟨_, rfl⟩
  · rename_i e es heq
    have hmem : e ∈ q.timers := by
      rw [OrderedSet.mem_def, heq]
      exact List.mem_cons_self
    obtain ⟨t, ht, -⟩ := (hb.timers e.expiration e.timer).mp hmem
    exact ⟨t.expiration, by rw [deref_of_live ht, ok_bind]⟩

end TimerQueue

end Muduo.Net
