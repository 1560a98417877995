import Mathlib.Data.List.Nodup
import Muduo.Net.Pollers

namespace Muduo.Net.Pollers
open Muduo.Lib

variable {C : Type} [DecidableEq C] {fd : C → Nat} {events : C → Events} {added : C → Bool}
  {c : C} {e : Events}

/-- The abstract interest table: the events of the channels in the loop that have some. -/
def Table (fd : C → Nat) (events : C → Events) (added : C → Bool) (n : Nat) (e : Events) : Prop :=
  ∃ c, fd c = n ∧ added c = true ∧ events c = e ∧ e ≠ kNoneEvent

/-- `channels_` holds the channels in the loop under their descriptors. -/
def Listed (fd : C → Nat) (added : C → Bool) (channels : Nat → Option C) : Prop :=
  ∀ n c, channels n = some c ↔ fd c = n ∧ added c = true

omit [DecidableEq C] in
theorem Listed.absent {channels : Nat → Option C} (h : Listed fd added channels)
    (hfd : Function.Injective fd) (ha : added c = false) : channels (fd c) = none := by
  cases hc : channels (fd c) with
  | none => rfl
  | some c' =>
    obtain ⟨heq, ha'⟩ := (h _ _).mp hc
    rw [hfd heq, ha] at ha'
    exact nomatch ha'

theorem Listed.enter {channels : Nat → Option C} (h : Listed fd added channels)
    (hfd : Function.Injective fd) (c : C) :
    Listed fd (Function.update added c true) (Function.update channels (fd c) (some c)) := by
  intro n c'
  by_cases hc : c' = c
  · subst hc
    by_cases hn : n = fd c'
    · subst hn
      simp
    · rw [Function.update_of_ne hn, h n c']
      simp [Ne.symm hn]
  · have hne : fd c' ≠ fd c := fun heq => hc (hfd heq)
    by_cases hn : n = fd c
    · subst hn
      simp [hne, Ne.symm hc]
    · rw [Function.update_of_ne hn, h n c', Function.update_of_ne hc]

theorem Listed.leave {channels : Nat → Option C} (h : Listed fd added channels)
    (hfd : Function.Injective fd) (c : C) :
    Listed fd (Function.update added c false) (Function.update channels (fd c) none) := by
  intro n c'
  by_cases hc : c' = c
  · subst hc
    by_cases hn : n = fd c'
    · subst hn
      simp
    · rw [Function.update_of_ne hn, h n c']
      simp [Ne.symm hn]
  · have hne : fd c' ≠ fd c := fun heq => hc (hfd heq)
    by_cases hn : n = fd c
    · subst hn
      simp [hne]
    · rw [Function.update_of_ne hn, h n c', Function.update_of_ne hc]

/-- A channel's own entry is all that its changes touch. -/
theorem table_update (hfd : Function.Injective fd) {a : Bool} {n : Nat} {e' : Events} :
    Table fd (Function.update events c e') (Function.update added c a) n e ↔
      if n = fd c then a = true ∧ e' = e ∧ e ≠ kNoneEvent else Table fd events added n e := by
  by_cases hn : n = fd c
  · subst hn
    rw [if_pos rfl]
    constructor
    · rintro ⟨c', hc', ha, he, hne⟩
      have := hfd hc'
      subst this
      simp only [Function.update_self] at ha he
      exact ⟨ha, he, hne⟩
    · rintro ⟨ha, he, hne⟩
      exact ⟨c, rfl, by simpa using ha, by simpa using he, hne⟩
  · rw [if_neg hn]
    constructor
    · rintro ⟨c', hc', ha, he, hne⟩
      have hc : c' ≠ c := fun h => hn (by rw [← hc', h])
      simp only [Function.update_of_ne hc] at ha he
      exact ⟨c', hc', ha, he, hne⟩
    · rintro ⟨c', hc', ha, he, hne⟩
      have hc : c' ≠ c := fun h => hn (by rw [← hc', h])
      exact ⟨c', hc', by simpa [hc] using ha, by simpa [hc] using he, hne⟩

namespace EPollPoller

variable {p : EPollPoller C}

/-- Tags, map and kernel follow from which channels are in the loop with which events. -/
structure Sound (p : EPollPoller C) (fd : C → Nat) (events : C → Events) (added : C → Bool) :
    Prop where
  index : ∀ c, p.index c =
    if added c then (if events c = kNoneEvent then .kDeleted else .kAdded) else .kNew
  channels : Listed fd added p.channels
  kernel : ∀ n e, p.kernel n = some e ↔ Table fd events added n e

/-- What an update leaves when the channel has events before or after. -/
def settled (p : EPollPoller C) (fd : C → Nat) (c : C) (e : Events) : EPollPoller C where
  index := Function.update p.index c (if e = kNoneEvent then .kDeleted else .kAdded)
  channels := Function.update p.channels (fd c) (some c)
  kernel := Function.update p.kernel (fd c) (if e = kNoneEvent then none else some e)

theorem updateChannel_eq (hs : p.Sound fd events added) (hfd : Function.Injective fd)
    (hidle : added c = false → events c = kNoneEvent)
    (he : e = kNoneEvent → events c ≠ kNoneEvent) :
    p.updateChannel fd (Function.update events c e) c = .ok (p.settled fd c e) := by
  have hindex := hs.index c
  cases ha : added c with
  | false =>
    -- the channel is new
    simp only [ha] at hindex
    have hnone : p.channels (fd c) = none := hs.channels.absent hfd ha
    have hkernel : p.kernel (fd c) = none := by
      rw [Option.eq_none_iff_forall_ne_some]
      intro e' he'
      obtain ⟨c', hc', ha', -⟩ := (hs.kernel _ _).mp he'
      rw [hfd hc', ha] at ha'
      exact nomatch ha'
    have hne : e ≠ kNoneEvent := fun h => he h (hidle ha)
    simp [updateChannel, hindex, check_pos, hnone, setIndex, update, hkernel, settled, hne]
  | true =>
    have hsome : p.channels (fd c) = some c := (hs.channels _ _).mpr ⟨rfl, ha⟩
    have hkeep : Function.update p.channels (fd c) (some c) = p.channels := by
      rw [← hsome, Function.update_eq_self]
    by_cases hev : events c = kNoneEvent
    · simp only [ha, hev, if_true] at hindex
      have hkernel : p.kernel (fd c) = none := by
        rw [Option.eq_none_iff_forall_ne_some]
        intro e' he'
        obtain ⟨c', hc', -, hec, hne⟩ := (hs.kernel _ _).mp he'
        rw [hfd hc', hev] at hec
        exact hne hec.symm
      have hne : e ≠ kNoneEvent := fun h => he h hev
      simp [updateChannel, hindex, check_pos, hsome, setIndex, update, hkernel, settled, hne, hkeep]
    · simp only [ha, hev, if_true, if_false] at hindex
      have hkernel : p.kernel (fd c) = some (events c) :=
        (hs.kernel _ _).mpr ⟨c, rfl, ha, rfl, hev⟩
      have hsame : Function.update p.index c .kAdded = p.index := by
        rw [← hindex, Function.update_eq_self]
      by_cases hne : e = kNoneEvent
      · simp [updateChannel, hindex, check_pos, hsome, setIndex, update, settled, hne, hkeep]
      · simp [updateChannel, hindex, check_pos, hsome, update, hkernel, settled, hne, hkeep, hsame]

theorem settled_sound (hs : p.Sound fd events added) (hfd : Function.Injective fd) (c : C)
    (e : Events) :
    (p.settled fd c e).Sound fd (Function.update events c e) (Function.update added c true) := by
  refine ⟨fun c' => ?_, hs.channels.enter hfd c, fun n e' => ?_⟩
  · by_cases hc : c' = c
    · subst hc
      simp [settled]
    · simpa [settled, hc] using hs.index c'
  · rw [table_update hfd]
    by_cases hn : n = fd c
    · subst hn
      by_cases he : e = kNoneEvent
      · subst he
        simp only [settled, if_true, Function.update_self]
        refine iff_of_false nofun ?_
        rintro ⟨-, rfl, hne⟩
        exact hne rfl
      · simp only [settled, he, if_false, Function.update_self, if_true, Option.some.injEq,
          true_and]
        refine ⟨?_, And.left⟩
        rintro rfl
        exact ⟨rfl, he⟩
    · simpa [settled, hn] using hs.kernel n e'

theorem removeChannel_eq (hs : p.Sound fd events added) (ha : added c = true)
    (hev : events c = kNoneEvent) :
    p.removeChannel fd events c = .ok { p with
      index := Function.update p.index c .kNew
      channels := Function.update p.channels (fd c) none } := by
  have hindex := hs.index c
  simp only [ha, hev, if_true] at hindex
  have hsome : p.channels (fd c) = some c := (hs.channels _ _).mpr ⟨rfl, ha⟩
  simp [removeChannel, check_pos, hsome, hev, hindex, setIndex]

theorem removed_sound (hs : p.Sound fd events added) (hfd : Function.Injective fd)
    (hev : events c = kNoneEvent) :
    ({ p with
      index := Function.update p.index c .kNew
      channels := Function.update p.channels (fd c) none } : EPollPoller C).Sound fd events
        (Function.update added c false) := by
  have hself : Function.update events c kNoneEvent = events := by
    rw [← hev, Function.update_eq_self]
  refine ⟨fun c' => ?_, hs.channels.leave hfd c, fun n e' => ?_⟩
  · by_cases hc : c' = c
    · subst hc
      simp
    · simpa [hc] using hs.index c'
  · have htable := @table_update C _ fd events added c e' hfd false n kNoneEvent
    rw [hself] at htable
    rw [htable, hs.kernel]
    by_cases hn : n = fd c
    · subst hn
      rw [if_pos rfl]
      refine iff_of_false ?_ (by simp)
      rintro ⟨c', hc', -, he, hne⟩
      rw [hfd hc', hev] at he
      exact hne he.symm
    · rw [if_neg hn]

/-- What the poller holds about one channel. -/
def view (p : EPollPoller C) (fd : C → Nat) (events : C → Events) (added : C → Bool) (c : C) :
    Channel where
  events := events c
  index := p.index c
  addedToLoop := added c
  registered := p.channels (fd c) ≠ none
  interest := p.kernel (fd c)

/-- Seen from the channel that is updated, the others are not there. -/
theorem updateChannel_view (h : p.channels (fd c) = none ∨ p.channels (fd c) = some c) :
    (p.updateChannel fd events c).map (·.view fd events added c) =
      Net.EPollPoller.updateChannel (p.view fd events added c) := by
  have hcases : ∀ i, p.index c = i → (p.updateChannel fd events c).map (·.view fd events added c) =
      Net.EPollPoller.updateChannel (p.view fd events added c) := by
    intro i hi
    cases i <;> rcases h with h | h <;> cases hk : p.kernel (fd c) <;>
      by_cases he : events c = kNoneEvent <;>
      simp [updateChannel, Net.EPollPoller.updateChannel, view, hi, h, hk, he, check, update,
        Net.EPollPoller.update, setIndex, Except.map]
  exact hcases _ rfl

theorem removeChannel_view (h : p.channels (fd c) = none ∨ p.channels (fd c) = some c) :
    (p.removeChannel fd events c).map (·.view fd events added c) =
      Net.EPollPoller.removeChannel (p.view fd events added c) := by
  have hcases : ∀ i, p.index c = i → (p.removeChannel fd events c).map (·.view fd events added c) =
      Net.EPollPoller.removeChannel (p.view fd events added c) := by
    intro i hi
    cases i <;> rcases h with h | h <;> by_cases he : events c = kNoneEvent <;>
      simp [removeChannel, Net.EPollPoller.removeChannel, view, hi, h, he, check, update,
        Net.EPollPoller.update, setIndex, Except.map]
  exact hcases _ rfl

end EPollPoller

namespace PollPoller

variable {p : PollPoller C} {removed : C → Bool} {i j : Nat} {pfd : PollFd}

/-- The slot of a channel: a descriptor with no events is stored as a negative number. -/
def entry (fd : C → Nat) (events : C → Events) (c : C) : PollFd where
  fd := if events c = kNoneEvent then -fd c - 1 else fd c
  events := events c

omit [DecidableEq C] in
@[simp] theorem decodeFd_entry : decodeFd (entry fd events c).fd = fd c := by
  unfold decodeFd entry
  by_cases he : events c = kNoneEvent
  · simp only [he, if_true]
    omega
  · simp only [he, if_false]
    omega

omit [DecidableEq C] in
theorem entry_fd_nonneg : 0 ≤ (entry fd events c).fd ↔ events c ≠ kNoneEvent := by
  unfold entry
  by_cases he : events c = kNoneEvent
  · simp only [he, if_true, ne_eq, not_true_eq_false, iff_false]
    omega
  · simp [he]

/-- The slots are those of the channels in the loop, each where its channel's index points. -/
structure Sound (p : PollPoller C) (fd : C → Nat) (events : C → Events) (added removed : C → Bool) :
    Prop where
  channels : Listed fd added p.channels
  slot : ∀ c, added c = true → ∃ i : Nat, p.index c = i ∧ p.pollfds[i]? = some (entry fd events c)
  owner : ∀ (i : Nat) pfd, p.pollfds[i]? = some pfd → ∃ c, added c = true ∧ p.index c = i
  fresh : ∀ c, added c = false → removed c = false → p.index c = -1

omit [DecidableEq C] in
theorem Sound.owner_entry (hs : p.Sound fd events added removed) (h : p.pollfds[i]? = some pfd) :
    ∃ c, added c = true ∧ p.index c = i ∧ pfd = entry fd events c := by
  obtain ⟨c, ha, hi⟩ := hs.owner i pfd h
  obtain ⟨j, hj, hpfd⟩ := hs.slot c ha
  have hij : i = j := by omega
  rw [← hij, h] at hpfd
  exact ⟨c, ha, hi, Option.some.inj hpfd⟩

omit [DecidableEq C] in
/-- Two channels in the loop never share a slot. -/
theorem Sound.index_inj (hs : p.Sound fd events added removed) (hfd : Function.Injective fd)
    {c c' : C} (ha : added c = true) (ha' : added c' = true) (h : p.index c = p.index c') :
    c = c' := by
  obtain ⟨i, hi, hpfd⟩ := hs.slot c ha
  obtain ⟨j, hj, hpfd'⟩ := hs.slot c' ha'
  have hij : i = j := by omega
  rw [← hij, hpfd] at hpfd'
  apply hfd
  rw [← @decodeFd_entry C fd events c, Option.some.inj hpfd',
    decodeFd_entry]

omit [DecidableEq C] in
/-- What the kernel is asked to watch is the abstract table. -/
theorem Sound.watched (hs : p.Sound fd events added removed) (n : Nat) (e : Events) :
    (n, e) ∈ p.watched ↔ Table fd events added n e := by
  simp only [PollPoller.watched, List.mem_map, List.mem_filter, Prod.mk.injEq,
    decide_eq_true_eq]
  constructor
  · rintro ⟨pfd, ⟨hmem, hpos⟩, hn, he⟩
    obtain ⟨i, hi⟩ := List.mem_iff_getElem?.mp hmem
    obtain ⟨c, ha, -, rfl⟩ := hs.owner_entry hi
    have hne := entry_fd_nonneg.mp hpos
    subst he
    refine ⟨c, ?_, ha, rfl, hne⟩
    rw [← hn]
    simp [entry, hne]
  · rintro ⟨c, hn, ha, rfl, hne⟩
    obtain ⟨i, -, hpfd⟩ := hs.slot c ha
    refine ⟨_, ⟨List.mem_of_getElem? hpfd, entry_fd_nonneg.mpr hne⟩, ?_, rfl⟩
    simp [entry, hne, hn]

/-- A channel enters with the next slot. -/
def entered (p : PollPoller C) (fd : C → Nat) (c : C) (e : Events) : PollPoller C where
  index := Function.update p.index c p.pollfds.length
  channels := Function.update p.channels (fd c) (some c)
  pollfds := p.pollfds ++ [⟨fd c, e⟩]

theorem enter_eq (hs : p.Sound fd events added removed) (hfd : Function.Injective fd)
    (ha : added c = false) (hr : removed c = false) :
    p.updateChannel fd (Function.update events c e) c = .ok (p.entered fd c e) := by
  have hindex := hs.fresh c ha hr
  have hnone : p.channels (fd c) = none := hs.channels.absent hfd ha
  simp [updateChannel, hindex, check_pos, hnone, setIndex, entered]

theorem entered_sound (hs : p.Sound fd events added removed) (hfd : Function.Injective fd)
    (ha : added c = false) (he : e ≠ kNoneEvent) :
    (p.entered fd c e).Sound fd (Function.update events c e) (Function.update added c true)
      removed := by
  refine ⟨hs.channels.enter hfd c, fun c' ha' => ?_, fun i pfd hi => ?_, fun c' ha' hr => ?_⟩
  · by_cases hc : c' = c
    · subst hc
      refine ⟨p.pollfds.length, by simp [entered], ?_⟩
      simp [entered, entry, he]
    · rw [Function.update_of_ne hc] at ha'
      obtain ⟨i, hi, hpfd⟩ := hs.slot c' ha'
      refine ⟨i, by simpa [entered, hc] using hi, ?_⟩
      rw [entered, List.getElem?_append_left (List.getElem?_eq_some_iff.mp hpfd).1, hpfd]
      simp [entry, hc]
  · by_cases hlast : i = p.pollfds.length
    · exact ⟨c, by simp, by simp [entered, hlast]⟩
    · have hlt : i < p.pollfds.length := by
        have := (List.getElem?_eq_some_iff.mp hi).1
        simp only [entered, List.length_append, List.length_singleton] at this
        omega
      rw [entered, List.getElem?_append_left hlt] at hi
      obtain ⟨c', ha', hi'⟩ := hs.owner i pfd hi
      have hc : c' ≠ c := by
        rintro rfl
        rw [ha] at ha'
        exact nomatch ha'
      exact ⟨c', by simpa [hc] using ha', by simpa [entered, hc] using hi'⟩
  · have hc : c' ≠ c := by
      rintro rfl
      simp at ha'
    rw [Function.update_of_ne hc] at ha'
    simpa [entered, hc] using hs.fresh c' ha' hr

/-- A channel in the loop rewrites its own slot. -/
def rewritten (p : PollPoller C) (fd : C → Nat) (c : C) (e : Events) (i : Nat) : PollPoller C where
  index := p.index
  channels := p.channels
  pollfds := p.pollfds.set i (entry fd (fun _ => e) c)

theorem rewrite_eq (hs : p.Sound fd events added removed) (ha : added c = true)
    (hi : p.index c = i) :
    p.updateChannel fd (Function.update events c e) c = .ok (p.rewritten fd c e i) := by
  have hsome : p.channels (fd c) = some c := (hs.channels _ _).mpr ⟨rfl, ha⟩
  obtain ⟨j, hj, hpfd⟩ := hs.slot c ha
  have hij : j = i := by omega
  subst hij
  have hlt := (List.getElem?_eq_some_iff.mp hpfd).1
  have hneg : ¬ ((j : Int) < 0) := by omega
  have hfd : (entry fd events c).fd = fd c ∨ (entry fd events c).fd = -fd c - 1 := by
    unfold entry
    by_cases he : events c = kNoneEvent
    · exact .inr (by simp [he])
    · exact .inl (by simp [he])
  simp only [updateChannel, hi, hneg, if_false, hsome, check_pos, ne_eq, reduceCtorEq,
    not_false_eq_true, ok_bind, slot, Int.toNat_natCast, hpfd, Function.update_self]
  rw [check_pos ⟨by omega, by omega⟩, ok_bind, check_pos hfd, ok_bind, rewritten, entry]
  by_cases he : e = kNoneEvent
  · simp [he]
  · simp [he]

theorem rewritten_sound (hs : p.Sound fd events added removed) (hfd : Function.Injective fd)
    (ha : added c = true) (hi : p.index c = i) :
    (p.rewritten fd c e i).Sound fd (Function.update events c e) (Function.update added c true)
      removed := by
  have hadd : Function.update added c true = added := by
    rw [← ha, Function.update_eq_self]
  rw [hadd]
  obtain ⟨j, hj, hpfd⟩ := hs.slot c ha
  have hij : j = i := by omega
  subst hij
  have hlt := (List.getElem?_eq_some_iff.mp hpfd).1
  refine ⟨hs.channels, fun c' ha' => ?_, fun k pfd hk => ?_, hs.fresh⟩
  · by_cases hc : c' = c
    · subst hc
      refine ⟨j, hi, ?_⟩
      simp [rewritten, entry, hlt]
    · obtain ⟨k, hk, hpfd'⟩ := hs.slot c' ha'
      have hjk : j ≠ k := by
        rintro rfl
        exact hc (hs.index_inj hfd ha' ha (hk.trans hi.symm))
      refine ⟨k, hk, ?_⟩
      rw [rewritten, List.getElem?_set_ne hjk, hpfd']
      simp [entry, hc]
  · by_cases hjk : j = k
    · subst hjk
      exact ⟨c, ha, hi⟩
    · rw [rewritten, List.getElem?_set_ne hjk] at hk
      exact hs.owner k pfd hk

/-- The last slot moves into the one that is given up. -/
def Moved (pollfds pollfds' : List PollFd) (i : Nat) : Prop :=
  pollfds'.length = pollfds.length - 1 ∧
    (∀ k, k < pollfds.length - 1 → k ≠ i → pollfds'[k]? = pollfds[k]?) ∧
    (i < pollfds.length - 1 → pollfds'[i]? = pollfds[pollfds.length - 1]?)

theorem moved_last {l : List PollFd} (h : i = l.length - 1) : Moved l l.dropLast i := by
  refine ⟨List.length_dropLast, fun k hk hne => ?_, fun hlt => by omega⟩
  rw [List.getElem?_dropLast, if_pos hk]

theorem moved_swap {l : List PollFd} {back : PollFd} (hi : i < l.length - 1)
    (hback : l[l.length - 1]? = some back) :
    Moved l ((l.set i back).set (l.length - 1) pfd).dropLast i := by
  refine ⟨by simp, fun k hk hne => ?_, fun _ => ?_⟩
  · rw [List.getElem?_dropLast, if_pos (by simpa using hk), List.getElem?_set_ne (by omega),
      List.getElem?_set_ne (Ne.symm hne)]
  · rw [List.getElem?_dropLast, if_pos (by simpa using hi), List.getElem?_set_ne (by omega),
      List.getElem?_set_self (by omega), hback]

/-- What a removal leaves: the owner of the last slot, if it is another channel, is told. -/
structure Removed (p p' : PollPoller C) (fd : C → Nat) (added : C → Bool) (c : C) : Prop where
  channels : p'.channels = Function.update p.channels (fd c) none
  moved : ∀ i : Nat, p.index c = i → Moved p.pollfds p'.pollfds i
  last : ∀ c', c' ≠ c → added c' = true → p.index c' = (p.pollfds.length - 1 : Nat) →
    p'.index c' = p.index c
  rest : ∀ c', (added c' = true → p.index c' ≠ (p.pollfds.length - 1 : Nat)) →
    p'.index c' = p.index c'

theorem remove_eq (hs : p.Sound fd events added removed) (hfd : Function.Injective fd)
    (ha : added c = true) (hev : events c = kNoneEvent) :
    ∃ p', p.removeChannel fd events c = .ok p' ∧ Removed p p' fd added c := by
  have hsome : p.channels (fd c) = some c := (hs.channels _ _).mpr ⟨rfl, ha⟩
  obtain ⟨i, hi, hpfd⟩ := hs.slot c ha
  have hlt := (List.getElem?_eq_some_iff.mp hpfd).1
  have hentry : (entry fd events c).fd = -fd c - 1 ∧ (entry fd events c).events = events c := by
    simp [entry, hev]
  simp only [removeChannel, hi, hsome, check_pos, ne_eq, reduceCtorEq, not_false_eq_true, ok_bind,
    hev, slot, Int.toNat_natCast, hpfd]
  rw [hev] at hentry
  rw [check_pos ⟨by omega, by omega⟩, ok_bind, check_pos hentry, ok_bind]
  by_cases hlast : i = p.pollfds.length - 1
  · rw [if_pos hlast]
    refine ⟨_, rfl, rfl, fun j hj => ?_, fun c' hc ha' hi' => ?_, fun c' _ => rfl⟩
    · have hij : j = i := by omega
      subst hij
      exact moved_last hlast
    · exact absurd (hs.index_inj hfd ha' ha (by rw [hi', hi, hlast])) hc
  · rw [if_neg hlast]
    have hidx : (p.pollfds.length - 1 : Int).toNat = p.pollfds.length - 1 := by omega
    obtain ⟨back, hback⟩ : ∃ back, p.pollfds[p.pollfds.length - 1]? = some back :=
      ⟨_, List.getElem?_eq_getElem (by omega)⟩
    obtain ⟨other, hao, hio, rfl⟩ := hs.owner_entry hback
    have hne : other ≠ c := by
      rintro rfl
      exact hlast (by omega)
    have hfdne : fd other ≠ fd c := fun h => hne (hfd h)
    have hother : p.channels (fd other) = some other := (hs.channels _ _).mpr ⟨rfl, hao⟩
    simp only [hidx, hback, ok_bind, decodeFd_entry, Function.update_of_ne hfdne, hother]
    refine ⟨_, rfl, rfl, fun j hj => ?_, fun c' hc ha' hi' => ?_, fun c' hne' => ?_⟩
    · have hij : j = i := by omega
      subst hij
      exact moved_swap (by omega) hback
    · have := hs.index_inj hfd ha' hao (by rw [hi', hio])
      subst this
      simp [setIndex, hi]
    · have : c' ≠ other := by
        rintro rfl
        exact hne' hao hio
      simp [setIndex, this]

theorem Removed.sound {p' : PollPoller C} (hp : Removed p p' fd added c)
    (hs : p.Sound fd events added removed) (hfd : Function.Injective fd) (ha : added c = true) :
    p'.Sound fd events (Function.update added c false) (Function.update removed c true) := by
  obtain ⟨i, hi, hpfd⟩ := hs.slot c ha
  have hlt := (List.getElem?_eq_some_iff.mp hpfd).1
  obtain ⟨hlen, hkeep, hmove⟩ := hp.moved i hi
  have hother : ∀ {c'}, Function.update added c false c' = true → c' ≠ c ∧ added c' = true := by
    intro c' ha'
    have hc : c' ≠ c := by
      rintro rfl
      simp at ha'
    exact ⟨hc, by simpa [hc] using ha'⟩
  refine ⟨?_, fun c' ha' => ?_, fun k pfd hk => ?_, fun c' ha' hr => ?_⟩
  · rw [hp.channels]
    exact hs.channels.leave hfd c
  · obtain ⟨hc, ha'⟩ := hother ha'
    obtain ⟨k, hk, hpfd'⟩ := hs.slot c' ha'
    have hki : k ≠ i := by
      rintro rfl
      exact hc (hs.index_inj hfd ha' ha (hk.trans hi.symm))
    have hlt' := (List.getElem?_eq_some_iff.mp hpfd').1
    by_cases hlast : k = p.pollfds.length - 1
    · refine ⟨i, (hp.last c' hc ha' (by rw [hk, hlast])).trans hi, ?_⟩
      rw [hmove (by omega), ← hlast, hpfd']
    · refine ⟨k, (hp.rest c' (fun _ => by rw [hk]; omega)).trans hk, ?_⟩
      rw [hkeep k (by omega) hki, hpfd']
  · have hk' := (List.getElem?_eq_some_iff.mp hk).1
    by_cases hki : k = i
    · subst hki
      rw [hmove (by omega)] at hk
      obtain ⟨c', ha', hi'⟩ := hs.owner _ _ hk
      have hc : c' ≠ c := by
        rintro rfl
        omega
      exact ⟨c', by simpa [hc] using ha', (hp.last c' hc ha' hi').trans hi⟩
    · rw [hkeep k (by omega) hki] at hk
      obtain ⟨c', ha', hi'⟩ := hs.owner _ _ hk
      have hc : c' ≠ c := by
        rintro rfl
        omega
      exact ⟨c', by simpa [hc] using ha', (hp.rest c' (fun _ => by rw [hi']; omega)).trans hi'⟩
  · have hc : c' ≠ c := by
      rintro rfl
      simp at hr
    rw [Function.update_of_ne hc] at ha' hr
    exact (hp.rest c' (fun h => by rw [ha'] at h; exact nomatch h)).trans (hs.fresh c' ha' hr)

end PollPoller

end Muduo.Net.Pollers
