import Mathlib.Data.List.Infix
import Muduo.Net.InterestTable

namespace Muduo.Net.Pollers
open Muduo.Lib

variable {C : Type} [DecidableEq C]

namespace PollPoller

/-- `channels_.find`. -/
def find (p : PollPoller C) (fd : Int) : Option C :=
  if fd < 0 then none else p.channels fd.toNat

/-- `Poller::hasChannel`. -/
def hasChannel (p : PollPoller C) (fd : C → Nat) (channel : C) : Prop :=
  p.find (fd channel) = some channel

instance (p : PollPoller C) (fd : C → Nat) (channel : C) : Decidable (p.hasChannel fd channel) :=
  inferInstanceAs (Decidable (_ = _))

/-- What `poll` reports: `revents_` of the channels and `activeChannels`. -/
structure Active (C : Type) where
  revents : C → Int
  channels : List C

/-- The loop of `fillActiveChannels` over the slots, each with the `revents` that the kernel
has left in it. -/
def fillActiveChannels (p : PollPoller C) (fd : C → Nat) :
    List (PollFd × Int) → Int → Active C → Except Fault (Active C)
  | [], _, active => .ok active
  | (pfd, revents) :: rest, numEvents, active =>
    if 0 < numEvents then
      if 0 < revents then
        match p.find pfd.fd with
        | none => .error .assertion
        | some channel => do
          check ((fd channel : Int) = pfd.fd)
          p.fillActiveChannels fd rest (numEvents - 1)
            ⟨Function.update active.revents channel revents, active.channels ++ [channel]⟩
      else
        p.fillActiveChannels fd rest numEvents active
    else
      .ok active

end PollPoller

/-- A `PollPoller` with the channels it watches; `removed` is the history of the removals. -/
structure Polling (C : Type) where
  events : C → Events
  removed : C → Bool
  poller : PollPoller C
  active : PollPoller.Active C

namespace Polling

/-- What happens to a poller; `poll` comes with what the kernel writes to `revents` and
returns. -/
inductive Event (C : Type)
  | updateChannel (channel : C) (events : Events)
  | removeChannel (channel : C)
  | poll (revents : List Int) (numEvents : Int)

variable (fd : C → Nat) (s : Polling C)

def initial (C : Type) : Polling C :=
  ⟨fun _ => kNoneEvent, fun _ => false, .initial C, ⟨fun _ => 0, []⟩⟩

/-- The first update of a channel enables some event, it is removed with no events enabled, and
then not added again. The kernel reports nothing for a negative descriptor. -/
def enabled : Event C → Prop
  | .updateChannel channel events =>
    s.removed channel = false ∧ (¬s.poller.hasChannel fd channel → events ≠ kNoneEvent)
  | .removeChannel channel => s.poller.hasChannel fd channel ∧ s.events channel = kNoneEvent
  | .poll revents _ => revents.length = s.poller.pollfds.length ∧
    ∀ slot ∈ s.poller.pollfds.zip revents, slot.1.fd < 0 → slot.2 = 0

def step : Event C → Except Fault (Polling C)
  | .updateChannel channel events => do
    let events := Function.update s.events channel events
    let poller ← s.poller.updateChannel fd events channel
    .ok { s with events := events, poller := poller }
  | .removeChannel channel => do
    let poller ← s.poller.removeChannel fd s.events channel
    .ok { s with removed := Function.update s.removed channel true, poller := poller }
  | .poll revents numEvents => do
    -- the loop hands over an empty `activeChannels`
    let active := { s.active with channels := [] }
    let active ←
      if 0 < numEvents then
        s.poller.fillActiveChannels fd (s.poller.pollfds.zip revents) numEvents active
      else
        .ok active
    .ok { s with active := active }

def machine : Machine (Polling C) (Event C) Fault where
  enabled := enabled fd
  step := step fd

end Polling

variable {fd : C → Nat} {events : C → Events} {added removed : C → Bool} {c : C}

namespace PollPoller

variable {p : PollPoller C}

omit [DecidableEq C] in
@[simp] theorem find_natCast (n : Nat) : p.find n = p.channels n := by
  have hpos : ¬((n : Int) < 0) := by omega
  rw [find, if_neg hpos, Int.toNat_natCast]

omit [DecidableEq C] in
theorem hasChannel_iff (hs : p.Sound fd events added removed) :
    p.hasChannel fd c ↔ added c = true := by
  rw [hasChannel, find_natCast, hs.channels]
  exact and_iff_right rfl

/-- A slot with something to report is that of a channel with events, which is found under the
descriptor in the slot. -/
theorem fillActiveChannels_returns (hs : p.Sound fd events added removed)
    {slots : List (PollFd × Int)} (hslots : ∀ slot ∈ slots, slot.1 ∈ p.pollfds)
    (hquiet : ∀ slot ∈ slots, slot.1.fd < 0 → slot.2 = 0) (numEvents : Int) (active : Active C) :
    ∃ active', p.fillActiveChannels fd slots numEvents active = .ok active' := by
  induction slots generalizing numEvents active with
  | nil => exact ⟨active, rfl⟩
  | cons slot rest ih =>
    obtain ⟨pfd, revents⟩ := slot
    have hrest := ih (fun slot h => hslots slot (List.mem_cons_of_mem _ h))
      (fun slot h => hquiet slot (List.mem_cons_of_mem _ h))
    by_cases hn : 0 < numEvents
    · by_cases hr : 0 < revents
      · obtain ⟨i, hi⟩ := List.mem_iff_getElem?.mp (hslots _ List.mem_cons_self)
        obtain ⟨c, ha, -, rfl⟩ := hs.owner_entry hi
        have hpos : ¬(entry fd events c).fd < 0 := by
          intro hneg
          have := hquiet _ List.mem_cons_self hneg
          simp only at this
          omega
        have hfd : (entry fd events c).fd = fd c := by
          have hne := entry_fd_nonneg.mp (by omega : 0 ≤ (entry fd events c).fd)
          rw [entry, if_neg hne]
        have hfind : p.channels (fd c) = some c := (hs.channels _ _).mpr ⟨rfl, ha⟩
        simp only [fillActiveChannels, if_pos hn, if_pos hr, hfd, find_natCast, hfind, check_pos,
          ok_bind]
        exact hrest _ _
      · simp only [fillActiveChannels, if_pos hn, if_neg hr]
        exact hrest _ _
    · exact ⟨active, by simp only [fillActiveChannels, if_neg hn]⟩

end PollPoller

namespace Polling

variable {s t : Polling C}

def Sound (fd : C → Nat) (s : Polling C) (added : C → Bool) : Prop :=
  s.poller.Sound fd s.events added s.removed

omit [DecidableEq C] in
theorem initial_sound : (initial C).Sound fd fun _ => false :=
  ⟨fun _ _ => iff_of_false nofun nofun, nofun, nofun, fun _ _ _ => rfl⟩

theorem updateChannel_sound (hs : s.Sound fd added) (hfd : Function.Injective fd) {e : Events}
    (he : s.enabled fd (.updateChannel c e)) : ∃ t, s.step fd (.updateChannel c e) = .ok t ∧
      t.Sound fd (Function.update added c true) ∧ t.events = Function.update s.events c e := by
  obtain ⟨hr, hne⟩ := he
  rw [PollPoller.hasChannel_iff hs] at hne
  cases ha : added c with
  | false =>
    refine ⟨{ s with
      events := Function.update s.events c e
      poller := s.poller.entered fd c e }, ?_, ?_, rfl⟩
    · simp only [step, PollPoller.enter_eq hs hfd ha hr, ok_bind]
    · exact PollPoller.entered_sound hs hfd ha (hne (by simp [ha]))
  | true =>
    obtain ⟨i, hi, -⟩ := hs.slot c ha
    refine ⟨{ s with
      events := Function.update s.events c e
      poller := s.poller.rewritten fd c e i }, ?_, ?_, rfl⟩
    · simp only [step, PollPoller.rewrite_eq hs ha hi, ok_bind]
    · exact PollPoller.rewritten_sound hs hfd ha hi

theorem removeChannel_sound (hs : s.Sound fd added) (hfd : Function.Injective fd)
    (he : s.enabled fd (.removeChannel c)) : ∃ t, s.step fd (.removeChannel c) = .ok t ∧
      t.Sound fd (Function.update added c false) ∧ t.events = s.events := by
  obtain ⟨hhas, hev⟩ := he
  have ha := (PollPoller.hasChannel_iff hs).mp hhas
  obtain ⟨p', hp, hp'⟩ := PollPoller.remove_eq hs hfd ha hev
  refine ⟨{ s with removed := Function.update s.removed c true, poller := p' }, ?_, ?_, rfl⟩
  · simp only [step, hp, ok_bind]
  · exact hp'.sound hs hfd ha

theorem poll_sound (hs : s.Sound fd added) {revents : List Int} {numEvents : Int}
    (he : s.enabled fd (.poll revents numEvents)) :
    ∃ t, s.step fd (.poll revents numEvents) = .ok t ∧ t.Sound fd added ∧
      t.poller = s.poller ∧ t.events = s.events := by
  obtain ⟨-, hquiet⟩ := he
  have hmem : ∀ slot ∈ s.poller.pollfds.zip revents, slot.1 ∈ s.poller.pollfds :=
    fun slot h => (List.of_mem_zip h).1
  obtain ⟨active, hfill⟩ := PollPoller.fillActiveChannels_returns hs hmem hquiet numEvents
    { s.active with channels := [] }
  by_cases hn : 0 < numEvents
  · refine ⟨{ s with active := active }, ?_, hs, rfl, rfl⟩
    simp only [step, if_pos hn, hfill, ok_bind]
  · refine ⟨{ s with active := { s.active with channels := [] } }, ?_, hs, rfl, rfl⟩
    simp only [step, if_neg hn, ok_bind]

/-- The channel that an event is about. -/
def Event.channel : Event C → Option C
  | .updateChannel c _ => some c
  | .removeChannel c => some c
  | .poll _ _ => none

/-- The slot at a channel's index. -/
def slotOf (s : Polling C) (c : C) : Option PollFd := s.poller.pollfds[(s.poller.index c).toNat]?

/-- `channels_` and `pollfds_` are in bijection through the indexes of the channels. -/
structure Bijective (fd : C → Nat) (s : Polling C) : Prop where
  size : ∃ keys : List Nat, keys.Nodup ∧ (∀ n, n ∈ keys ↔ s.poller.channels n ≠ none) ∧
    keys.length = s.poller.pollfds.length
  position : ∀ n c, s.poller.channels n = some c →
    0 ≤ s.poller.index c ∧ s.poller.index c < s.poller.pollfds.length
  distinct : ∀ n n' c c', s.poller.channels n = some c → s.poller.channels n' = some c' →
    c ≠ c' → s.poller.index c ≠ s.poller.index c'
  entry : ∀ n c, s.poller.channels n = some c →
    s.slotOf c = some ⟨if s.events c = kNoneEvent then -fd c - 1 else fd c, s.events c⟩

/-- The other channels keep their events and what their slots hold. -/
def OthersKept (e : Event C) (s t : Polling C) : Prop :=
  ∀ n c, s.poller.channels n = some c → e.channel ≠ some c →
    t.poller.channels n = some c ∧ t.events c = s.events c ∧ t.slotOf c = s.slotOf c

omit [DecidableEq C] in
theorem Sound.slotOf_eq (hs : s.Sound fd added) (ha : added c = true) :
    s.slotOf c = some (PollPoller.entry fd s.events c) := by
  obtain ⟨i, hi, hpfd⟩ := hs.slot c ha
  rw [slotOf, hi, Int.toNat_natCast]
  exact hpfd

omit [DecidableEq C] in
/-- The slots encode distinct descriptors. -/
theorem Sound.nodup (hs : s.Sound fd added) (hfd : Function.Injective fd) :
    (s.poller.pollfds.map fun pfd => PollPoller.decodeFd pfd.fd).Nodup := by
  rw [List.nodup_iff_getElem?_ne_getElem?]
  intro i j hij hj heq
  rw [List.length_map] at hj
  have hi := List.getElem?_eq_getElem (hij.trans hj)
  have hj := List.getElem?_eq_getElem hj
  obtain ⟨c, ha, hci, hc⟩ := hs.owner_entry hi
  obtain ⟨c', ha', hcj, hc'⟩ := hs.owner_entry hj
  rw [List.getElem?_map, List.getElem?_map, hi, hj, hc, hc', Option.map_some, Option.map_some,
    Option.some.injEq, PollPoller.decodeFd_entry, PollPoller.decodeFd_entry] at heq
  rw [hfd heq, hcj] at hci
  omega

omit [DecidableEq C] in
/-- They are the keys of `channels_`. -/
theorem Sound.mem_keys (hs : s.Sound fd added) (n : Nat) :
    n ∈ s.poller.pollfds.map (fun pfd => PollPoller.decodeFd pfd.fd) ↔
      s.poller.channels n ≠ none := by
  rw [List.mem_map]
  constructor
  · rintro ⟨pfd, hmem, rfl⟩
    obtain ⟨i, hi⟩ := List.mem_iff_getElem?.mp hmem
    obtain ⟨c, ha, -, rfl⟩ := hs.owner_entry hi
    rw [PollPoller.decodeFd_entry, (hs.channels (fd c) c).mpr ⟨rfl, ha⟩]
    exact Option.some_ne_none c
  · intro hn
    obtain ⟨c, hc⟩ := Option.ne_none_iff_exists'.mp hn
    obtain ⟨rfl, ha⟩ := (hs.channels n c).mp hc
    obtain ⟨i, -, hpfd⟩ := hs.slot c ha
    exact ⟨_, List.mem_of_getElem? hpfd, PollPoller.decodeFd_entry⟩

omit [DecidableEq C] in
theorem Sound.bijective (hs : s.Sound fd added) (hfd : Function.Injective fd) :
    s.Bijective fd := by
  have hadded : ∀ n c, s.poller.channels n = some c → added c = true :=
    fun n c h => ((hs.channels n c).mp h).2
  refine ⟨⟨_, hs.nodup hfd, hs.mem_keys, List.length_map _⟩, fun n c h => ?_,
    fun n n' c c' h h' hne heq => ?_, fun n c h => ?_⟩
  · obtain ⟨i, hi, hpfd⟩ := hs.slot c (hadded n c h)
    have hlt := (List.getElem?_eq_some_iff.mp hpfd).1
    omega
  · exact hne (hs.index_inj hfd (hadded n c h) (hadded n' c' h') heq)
  · exact hs.slotOf_eq (hadded n c h)

omit [DecidableEq C] in
/-- A channel that stays in the loop with its events keeps what its slot holds, though the slot
may be another one. -/
theorem Sound.others {added' : C → Bool} (hs : s.Sound fd added) (ht : t.Sound fd added')
    {e : Event C} (hadded : ∀ c, e.channel ≠ some c → added' c = added c)
    (hevents : ∀ c, e.channel ≠ some c → t.events c = s.events c) : OthersKept e s t := by
  intro n c hn hc
  obtain ⟨rfl, ha⟩ := (hs.channels n c).mp hn
  have ha' : added' c = true := (hadded c hc).trans ha
  refine ⟨(ht.channels _ c).mpr ⟨rfl, ha'⟩, hevents c hc, ?_⟩
  rw [hs.slotOf_eq ha, ht.slotOf_eq ha', PollPoller.entry, PollPoller.entry, hevents c hc]

theorem step_sound (hs : s.Sound fd added) (hfd : Function.Injective fd) {e : Event C}
    (he : s.enabled fd e) : ∃ t, s.step fd e = .ok t ∧ (∃ added', t.Sound fd added') ∧
      OthersKept e s t := by
  cases e with
  | updateChannel c e =>
    obtain ⟨t, hstep, ht, hev⟩ := updateChannel_sound hs hfd he
    refine ⟨t, hstep, ⟨_, ht⟩, hs.others ht (fun c' hc => ?_) fun c' hc => ?_⟩
    · exact Function.update_of_ne (fun h => hc (congrArg some h.symm)) _ _
    · rw [hev]
      exact Function.update_of_ne (fun h => hc (congrArg some h.symm)) _ _
  | removeChannel c =>
    obtain ⟨t, hstep, ht, hev⟩ := removeChannel_sound hs hfd he
    refine ⟨t, hstep, ⟨_, ht⟩, hs.others ht (fun c' hc => ?_) fun c' _ => by rw [hev]⟩
    exact Function.update_of_ne (fun h => hc (congrArg some h.symm)) _ _
  | poll revents numEvents =>
    obtain ⟨t, hstep, ht, -, hev⟩ := poll_sound hs he
    exact ⟨t, hstep, ⟨_, ht⟩, hs.others ht (fun _ _ => rfl) fun c' _ => by rw [hev]⟩

/-- No assertion fails, the channels and the slots stay in bijection, and no step touches what
the slot of another channel holds. -/
theorem slots_bijective (hfd : Function.Injective fd) {es : List (Event C)}
    (hl : (machine fd).Legal (fun _ _ => True) (initial C) es) :
    Yields (Bijective fd) (fun _ => False) ((machine fd).run (initial C) es) ∧
      ∀ es' e s, es' ++ [e] <+: es → (machine fd).run (initial C) es' = .ok s →
        Yields (OthersKept e s) (fun _ => False) (s.step fd e) := by
  have hrun : ∀ es', (machine fd).Legal (fun _ _ => True) (initial C) es' →
      Yields (fun s => ∃ added, s.Sound fd added) (fun _ => False)
        ((machine fd).run (initial C) es') := by
    intro es' hl'
    refine Machine.run_keeps (fun s e hs he _ => ?_) ⟨_, initial_sound⟩ hl'
    obtain ⟨added, hs⟩ := hs
    obtain ⟨t, hstep, ht, -⟩ := step_sound hs hfd he
    change Yields _ _ (s.step fd e)
    rw [hstep]
    exact ht
  refine ⟨(hrun es hl).mono fun s ⟨added, hs⟩ => hs.bijective hfd, ?_⟩
  rintro es' e s ⟨rest, rfl⟩ hr
  obtain ⟨added, hs⟩ := (hrun es' hl.left.left).of_ok hr
  obtain ⟨he, -, -⟩ := hl.left.right hr
  obtain ⟨t, hstep, -, ht⟩ := step_sound hs hfd he
  rw [hstep]
  exact ht

instance (s : Polling C) : ∀ e, Decidable ((machine fd).enabled s e)
  | .updateChannel c e => inferInstanceAs (Decidable
    (s.removed c = false ∧ (¬s.poller.hasChannel fd c → e ≠ kNoneEvent)))
  | .removeChannel c =>
    inferInstanceAs (Decidable (s.poller.hasChannel fd c ∧ s.events c = kNoneEvent))
  | .poll revents _ => inferInstanceAs (Decidable (revents.length = s.poller.pollfds.length ∧
    ∀ slot ∈ s.poller.pollfds.zip revents, slot.1.fd < 0 → slot.2 = 0))

/-- The slot of descriptor 0 is given up first, then one in the middle, then the last. -/
def sampleRun : List (Event (Fin 4)) :=
  [.updateChannel 0 ⟨true, false⟩, .updateChannel 1 ⟨true, true⟩, .updateChannel 2 ⟨false, true⟩,
    .updateChannel 3 ⟨true, false⟩, .poll [1, 0, 4, 0] 2, .updateChannel 0 kNoneEvent,
    .updateChannel 3 kNoneEvent, .poll [0, 1, 4, 0] 2, .removeChannel 0, .poll [0, 1, 0] 1,
    .updateChannel 1 kNoneEvent, .removeChannel 1, .removeChannel 3,
    .updateChannel 2 kNoneEvent, .removeChannel 2]

theorem slots_bijective_sample :
    Yields (Bijective Fin.val) (fun _ => False)
        ((machine Fin.val).run (initial (Fin 4)) sampleRun) ∧
      ∀ es' e s, es' ++ [e] <+: sampleRun → (machine Fin.val).run (initial (Fin 4)) es' = .ok s →
        Yields (OthersKept e s) (fun _ => False) (s.step Fin.val e) :=
  slots_bijective (fun _ _ h => Fin.ext h) (by decide +kernel)

end Polling

end Muduo.Net.Pollers
