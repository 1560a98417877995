import Muduo.Net.Pollers

namespace Muduo.Net.Epoll
open Muduo.Lib

variable {C E : Type} [DecidableEq C] [DecidableEq E] [Zero E]

/-- `struct epoll_event`. -/
structure EpollEvent (C E : Type) where
  events : E
  ptr : C

/-- A call of `epoll_ctl`; `present` is whether the descriptor was in the interest set then. -/
structure CtlCall where
  operation : CtlOp
  fd : Nat
  present : Bool

/-- `EPollPoller` with the `index_` it keeps in each channel, over any type of event masks;
`kernel` is the interest set, `calls` the history of the operations on it. -/
structure EPollPoller (C E : Type) where
  index : C → Index
  channels : Nat → Option C
  kernel : Nat → Option (EpollEvent C E)
  calls : List CtlCall

/-- `epoll_ctl`: the new interest set, or nothing for `EEXIST` and `ENOENT`. -/
def epollCtl (kernel : Nat → Option (EpollEvent C E)) (operation : CtlOp) (fd : Nat)
    (event : EpollEvent C E) : Option (Nat → Option (EpollEvent C E)) :=
  match operation, kernel fd with
  | .add, none => some (Function.update kernel fd (some event))
  | .mod, some _ => some (Function.update kernel fd (some event))
  | .del, some _ => some (Function.update kernel fd none)
  | .add, some _ => none
  | .mod, none => none
  | .del, none => none

namespace EPollPoller

variable (p : EPollPoller C E) (fd : C → Nat) (events : C → E) (channel : C)

def initial (C E : Type) : EPollPoller C E :=
  ⟨fun _ => .kNew, fun _ => none, fun _ => none, []⟩

def setIndex (i : Index) : EPollPoller C E := { p with index := Function.update p.index channel i }

def update (operation : CtlOp) : Except Fault (EPollPoller C E) :=
  let call := ⟨operation, fd channel, (p.kernel (fd channel)).isSome⟩
  let p := { p with calls := p.calls ++ [call] }
  match epollCtl p.kernel operation (fd channel) ⟨events channel, channel⟩ with
  | some kernel => .ok { p with kernel := kernel }
  | none =>
    match operation with
    | .del => .ok p
    | .add => .error .fatal
    | .mod => .error .fatal

def updateChannel : Except Fault (EPollPoller C E) :=
  match p.index channel with
  | .kNew => do
    check (p.channels (fd channel) = none)
    let p := { p with channels := Function.update p.channels (fd channel) (some channel) }
    (p.setIndex channel .kAdded).update fd events channel .add
  | .kDeleted => do
    check (p.channels (fd channel) ≠ none)
    check (p.channels (fd channel) = some channel)
    (p.setIndex channel .kAdded).update fd events channel .add
  | .kAdded => do
    check (p.channels (fd channel) ≠ none)
    check (p.channels (fd channel) = some channel)
    if events channel = 0 then
      let p ← p.update fd events channel .del
      .ok (p.setIndex channel .kDeleted)
    else
      p.update fd events channel .mod

/-- `channels_.erase(fd)`, with the number of elements it removes. -/
def erase (n : Nat) : EPollPoller C E × Nat :=
  ({ p with channels := Function.update p.channels n none }, if p.channels n = none then 0 else 1)

def removeChannel : Except Fault (EPollPoller C E) := do
  check (p.channels (fd channel) ≠ none)
  check (p.channels (fd channel) = some channel)
  check (events channel = 0)
  let index := p.index channel
  check (index = .kAdded ∨ index = .kDeleted)
  let (p, n) := p.erase (fd channel)
  check (n = 1)
  let p ← if index = .kAdded then p.update fd events channel .del else .ok p
  .ok (p.setIndex channel .kNew)

end EPollPoller

/-- A poller with the event masks of the channels. -/
structure Watch (C E : Type) where
  events : C → E
  poller : EPollPoller C E

inductive Event (C E : Type)
  | updateChannel (channel : C) (events : E)
  | removeChannel (channel : C)

namespace Watch

variable (fd : C → Nat) (s : Watch C E)

def initial (C E : Type) [Zero E] : Watch C E := ⟨fun _ => 0, .initial C E⟩

/-- A registered channel is removed after its events are disabled. -/
def enabled : Event C E → Prop
  | .updateChannel _ _ => True
  | .removeChannel channel => s.poller.channels (fd channel) = some channel ∧ s.events channel = 0

def step : Event C E → Except Fault (Watch C E)
  | .updateChannel channel events => do
    let events := Function.update s.events channel events
    let poller ← s.poller.updateChannel fd events channel
    .ok ⟨events, poller⟩
  | .removeChannel channel => do
    let poller ← s.poller.removeChannel fd s.events channel
    .ok ⟨s.events, poller⟩

def machine : Machine (Watch C E) (Event C E) Fault where
  enabled := enabled fd
  step := step fd

end Watch

/-- `epoll_ctl` adds an absent descriptor, and modifies and deletes a present one. -/
def CtlCall.Allowed (call : CtlCall) : Prop :=
  match call.operation with
  | .add => call.present = false
  | .mod => call.present = true
  | .del => call.present = true

namespace EPollPoller

variable {p : EPollPoller C E} {fd : C → Nat} {events : C → E} {c : C}

/-- The channel is in `channels_`. -/
def Registered (p : EPollPoller C E) (c : C) : Prop := ∃ n, p.channels n = some c

/-- New contents of the index of a channel and of the two tables at its descriptor. -/
def revised (p : EPollPoller C E) (fd : C → Nat) (c : C) (i : Index) (channel : Option C)
    (event : Option (EpollEvent C E)) (calls : List CtlCall) : EPollPoller C E where
  index := Function.update p.index c i
  channels := Function.update p.channels (fd c) channel
  kernel := Function.update p.kernel (fd c) event
  calls := p.calls ++ calls

omit [DecidableEq C] [DecidableEq E] [Zero E] in
theorem update_add (h : p.kernel (fd c) = none) : p.update fd events c .add = .ok { p with
    kernel := Function.update p.kernel (fd c) (some ⟨events c, c⟩)
    calls := p.calls ++ [⟨.add, fd c, false⟩] } := by
  simp only [update, epollCtl, h, Option.isSome_none]

omit [DecidableEq C] [DecidableEq E] [Zero E] in
theorem update_mod {event : EpollEvent C E} (h : p.kernel (fd c) = some event) :
    p.update fd events c .mod = .ok { p with
      kernel := Function.update p.kernel (fd c) (some ⟨events c, c⟩)
      calls := p.calls ++ [⟨.mod, fd c, true⟩] } := by
  simp only [update, epollCtl, h, Option.isSome_some]

omit [DecidableEq C] [DecidableEq E] [Zero E] in
theorem update_del {event : EpollEvent C E} (h : p.kernel (fd c) = some event) :
    p.update fd events c .del = .ok { p with
      kernel := Function.update p.kernel (fd c) none
      calls := p.calls ++ [⟨.del, fd c, true⟩] } := by
  simp only [update, epollCtl, h, Option.isSome_some]

theorem updateChannel_new (hi : p.index c = .kNew) (hch : p.channels (fd c) = none)
    (hk : p.kernel (fd c) = none) : p.updateChannel fd events c =
      .ok (p.revised fd c .kAdded (some c) (some ⟨events c, c⟩) [⟨.add, fd c, false⟩]) := by
  simp only [updateChannel, hi, check_pos hch, ok_bind]
  exact update_add hk

theorem updateChannel_deleted (hi : p.index c = .kDeleted) (hch : p.channels (fd c) = some c)
    (hk : p.kernel (fd c) = none) : p.updateChannel fd events c =
      .ok (p.revised fd c .kAdded (some c) (some ⟨events c, c⟩) [⟨.add, fd c, false⟩]) := by
  have hsame : Function.update p.channels (fd c) (some c) = p.channels :=
    Function.update_eq_self_iff.mpr hch.symm
  have hne : p.channels (fd c) ≠ none := by simp [hch]
  simp only [updateChannel, hi, check_pos hne, check_pos hch, ok_bind, revised, hsame]
  exact update_add hk

theorem updateChannel_added {event : EpollEvent C E} (hi : p.index c = .kAdded)
    (hch : p.channels (fd c) = some c) (hk : p.kernel (fd c) = some event) (he : events c ≠ 0) :
    p.updateChannel fd events c =
      .ok (p.revised fd c .kAdded (some c) (some ⟨events c, c⟩) [⟨.mod, fd c, true⟩]) := by
  have hsame : Function.update p.channels (fd c) (some c) = p.channels :=
    Function.update_eq_self_iff.mpr hch.symm
  have hindex : Function.update p.index c .kAdded = p.index :=
    Function.update_eq_self_iff.mpr hi.symm
  have hne : p.channels (fd c) ≠ none := by simp [hch]
  simp only [updateChannel, hi, check_pos hne, check_pos hch, ok_bind, if_neg he, revised, hsame,
    hindex]
  exact update_mod hk

theorem updateChannel_silent {event : EpollEvent C E} (hi : p.index c = .kAdded)
    (hch : p.channels (fd c) = some c) (hk : p.kernel (fd c) = some event) (he : events c = 0) :
    p.updateChannel fd events c =
      .ok (p.revised fd c .kDeleted (some c) none [⟨.del, fd c, true⟩]) := by
  have hsame : Function.update p.channels (fd c) (some c) = p.channels :=
    Function.update_eq_self_iff.mpr hch.symm
  have hne : p.channels (fd c) ≠ none := by simp [hch]
  simp only [updateChannel, hi, check_pos hne, check_pos hch, ok_bind, if_pos he,
    update_del hk, setIndex, revised, hsame]

theorem removeChannel_added {event : EpollEvent C E} (hi : p.index c = .kAdded)
    (hch : p.channels (fd c) = some c) (hk : p.kernel (fd c) = some event) (he : events c = 0) :
    p.removeChannel fd events c =
      .ok (p.revised fd c .kNew none none [⟨.del, fd c, true⟩]) := by
  have hne : p.channels (fd c) ≠ none := by simp [hch]
  have hdel : (p.erase (fd c)).1.update fd events c .del = _ := update_del hk
  simp only [removeChannel, check_pos hne, check_pos hch, check_pos he, hi, true_or,
    check_pos, erase, if_neg hne, ok_bind, if_true] at hdel ⊢
  simp only [hdel, ok_bind, setIndex, revised]

theorem removeChannel_deleted (hi : p.index c = .kDeleted) (hch : p.channels (fd c) = some c)
    (hk : p.kernel (fd c) = none) (he : events c = 0) :
    p.removeChannel fd events c = .ok (p.revised fd c .kNew none none []) := by
  have hne : p.channels (fd c) ≠ none := by simp [hch]
  have hsame : Function.update p.kernel (fd c) none = p.kernel :=
    Function.update_eq_self_iff.mpr hk.symm
  simp only [removeChannel, check_pos hne, check_pos hch, check_pos he, hi, or_true,
    check_pos, erase, if_neg hne, ok_bind, reduceCtorEq, if_false, setIndex, revised, hsame,
    List.append_nil]

end EPollPoller

namespace Watch

variable {fd : C → Nat} {s t : Watch C E} {c : C}

/-- What `channels_` and the interest set hold for a channel with the given index. -/
def Entry (fd : C → Nat) (s : Watch C E) (c : C) : Index → Prop
  | .kNew => s.poller.channels (fd c) = none ∧ s.poller.kernel (fd c) = none
  | .kAdded => s.poller.channels (fd c) = some c ∧
      s.poller.kernel (fd c) = some ⟨s.events c, c⟩
  | .kDeleted => s.poller.channels (fd c) = some c ∧ s.poller.kernel (fd c) = none

structure Sound (fd : C → Nat) (s : Watch C E) : Prop where
  key : ∀ n c, s.poller.channels n = some c → fd c = n
  entry : ∀ c, s.Entry fd c (s.poller.index c)
  calls : ∀ call ∈ s.poller.calls, call.Allowed

omit [DecidableEq C] [DecidableEq E] in
theorem initial_sound : (initial C E).Sound fd :=
  ⟨nofun, fun _ => ⟨rfl, rfl⟩, nofun⟩

omit [DecidableEq E] [Zero E] in
/-- The other channels keep their entries, as their descriptors are others. -/
theorem Sound.revised (hs : s.Sound fd) (hfd : Function.Injective fd) {m : C → E}
    (hm : ∀ c', c' ≠ c → m c' = s.events c') {i : Index} {channel : Option C}
    {event : Option (EpollEvent C E)} {calls : List CtlCall}
    (hkey : ∀ c', channel = some c' → c' = c)
    (hentry : Entry fd ⟨m, s.poller.revised fd c i channel event calls⟩ c i)
    (hcalls : ∀ call ∈ calls, call.Allowed) :
    Sound fd ⟨m, s.poller.revised fd c i channel event calls⟩ := by
  refine ⟨fun n c' hn => ?_, fun c' => ?_, fun call hmem => ?_⟩
  · by_cases heq : n = fd c
    · subst heq
      rw [hkey c' (by simpa [EPollPoller.revised] using hn)]
    · simp only [EPollPoller.revised, Function.update_of_ne heq] at hn
      exact hs.key n c' hn
  · by_cases heq : c' = c
    · subst heq
      simpa only [EPollPoller.revised, Function.update_self] using hentry
    · have hne : fd c' ≠ fd c := fun h => heq (hfd h)
      have hold := hs.entry c'
      cases hi : s.poller.index c' <;> simpa only [hi, Entry, EPollPoller.revised,
        Function.update_of_ne heq, Function.update_of_ne hne, hm c' heq] using hold
  · cases List.mem_append.mp hmem with
    | inl hold => exact hs.calls call hold
    | inr hnew => exact hcalls call hnew

theorem updateChannel_sound (hs : s.Sound fd) (hfd : Function.Injective fd) (e : E) :
    Yields (Sound fd) (fun _ => False) (s.step fd (.updateChannel c e)) := by
  have hentry := hs.entry c
  have hself : Function.update s.events c e c = e := Function.update_self c e s.events
  have hm : ∀ c', c' ≠ c → Function.update s.events c e c' = s.events c' :=
    fun c' hne => Function.update_of_ne hne e s.events
  have hsome : ∀ c', some c = some c' → c' = c := fun c' h => (Option.some.inj h).symm
  simp only [step]
  cases hi : s.poller.index c with
  | kNew =>
    obtain ⟨hch, hk⟩ : s.Entry fd c .kNew := hi ▸ hentry
    rw [EPollPoller.updateChannel_new hi hch hk]
    exact hs.revised hfd hm hsome (by simp [Entry, EPollPoller.revised])
      (by simp [CtlCall.Allowed])
  | kAdded =>
    obtain ⟨hch, hk⟩ : s.Entry fd c .kAdded := hi ▸ hentry
    by_cases he : e = 0
    · rw [EPollPoller.updateChannel_silent hi hch hk (hself.trans he)]
      exact hs.revised hfd hm hsome (by simp [Entry, EPollPoller.revised])
        (by simp [CtlCall.Allowed])
    · rw [EPollPoller.updateChannel_added hi hch hk (by rwa [hself])]
      exact hs.revised hfd hm hsome (by simp [Entry, EPollPoller.revised])
        (by simp [CtlCall.Allowed])
  | kDeleted =>
    obtain ⟨hch, hk⟩ : s.Entry fd c .kDeleted := hi ▸ hentry
    rw [EPollPoller.updateChannel_deleted hi hch hk]
    exact hs.revised hfd hm hsome (by simp [Entry, EPollPoller.revised])
      (by simp [CtlCall.Allowed])

theorem removeChannel_sound (hs : s.Sound fd) (hfd : Function.Injective fd)
    (he : s.enabled fd (.removeChannel c)) :
    Yields (Sound fd) (fun _ => False) (s.step fd (.removeChannel c)) := by
  obtain ⟨hch, hnone⟩ := he
  have hentry := hs.entry c
  simp only [step]
  cases hi : s.poller.index c with
  | kNew =>
    obtain ⟨habsent, -⟩ : s.Entry fd c .kNew := hi ▸ hentry
    simp [hch] at habsent
  | kAdded =>
    obtain ⟨-, hk⟩ : s.Entry fd c .kAdded := hi ▸ hentry
    rw [EPollPoller.removeChannel_added hi hch hk hnone]
    exact hs.revised hfd (fun _ _ => rfl) nofun (by simp [Entry, EPollPoller.revised])
      (by simp [CtlCall.Allowed])
  | kDeleted =>
    obtain ⟨-, hk⟩ : s.Entry fd c .kDeleted := hi ▸ hentry
    rw [EPollPoller.removeChannel_deleted hi hch hk hnone]
    exact hs.revised hfd (fun _ _ => rfl) nofun (by simp [Entry, EPollPoller.revised]) nofun

/-- Every operation so far was one that `epoll_ctl` takes, and the index of each channel says
which of the two tables it is in. -/
structure Tracked (fd : C → Nat) (s : Watch C E) : Prop where
  calls : ∀ call ∈ s.poller.calls, call.Allowed
  kNew : ∀ c, s.poller.index c = .kNew ↔ ¬s.poller.Registered c
  kAdded : ∀ c, s.poller.index c = .kAdded ↔
    s.poller.Registered c ∧ s.poller.kernel (fd c) ≠ none
  kDeleted : ∀ c, s.poller.index c = .kDeleted ↔
    s.poller.Registered c ∧ s.poller.kernel (fd c) = none

omit [DecidableEq C] [DecidableEq E] [Zero E] in
theorem Sound.tracked (hs : s.Sound fd) : s.Tracked fd := by
  have hreg : ∀ c, s.poller.Registered c ↔ s.poller.channels (fd c) = some c := by
    refine fun c => ⟨fun ⟨n, hn⟩ => ?_, fun h => ⟨_, h⟩⟩
    rw [hs.key n c hn]
    exact hn
  refine ⟨hs.calls, fun c => ?_, fun c => ?_, fun c => ?_⟩
  all_goals
    rw [hreg]
    have hentry := hs.entry c
    cases hi : s.poller.index c <;> rw [hi] at hentry <;> simp [hentry.1, hentry.2]

/-- Whatever masks the channels are given, `epoll_ctl` refuses no operation, no assertion fails,
and the index of each channel tracks both tables. -/
theorem operations_legal (hfd : Function.Injective fd) {es : List (Event C E)}
    (hl : (machine fd).Legal (fun _ _ => True) (initial C E) es) :
    Yields (Tracked fd) (fun _ => False) ((machine fd).run (initial C E) es) := by
  have hrun : Yields (Sound fd) (fun _ => False) ((machine fd).run (initial C E) es) := by
    refine Machine.run_keeps (fun s e hs he _ => ?_) initial_sound hl
    cases e with
    | updateChannel c e => exact updateChannel_sound hs hfd e
    | removeChannel c => exact removeChannel_sound hs hfd he
  exact hrun.mono fun s hs => hs.tracked

instance (s : Watch C E) : ∀ e, Decidable ((machine fd).enabled s e)
  | .updateChannel _ _ => isTrue trivial
  | .removeChannel c =>
    inferInstanceAs (Decidable (s.poller.channels (fd c) = some c ∧ s.events c = 0))

/-- A channel is silenced twice in a row, which adds it again, and others are removed from either
registered state. -/
def sampleRun : List (Event (Fin 3) Int) :=
  [.updateChannel 0 3, .updateChannel 1 0, .updateChannel 0 7, .updateChannel 0 0,
    .updateChannel 0 0, .updateChannel 2 4, .removeChannel 1, .updateChannel 2 0,
    .removeChannel 2, .updateChannel 2 0, .updateChannel 0 0, .removeChannel 0]

theorem operations_legal_sample :
    Yields (Tracked Fin.val) (fun _ => False)
      ((machine Fin.val).run (initial (Fin 3) Int) sampleRun) :=
  operations_legal (fun _ _ h => Fin.ext h) (by decide +kernel)

end Watch

/-- What the poller holds without the pointers and the history. -/
def EPollPoller.forget (p : EPollPoller C Events) : Pollers.EPollPoller C where
  index := p.index
  channels := p.channels
  kernel n := (p.kernel n).map (·.events)

instance : Zero Events := ⟨kNoneEvent⟩

namespace EPollPoller

variable {p : EPollPoller C Events} {fd : C → Nat} {events : C → Events} {c : C}

omit [DecidableEq C] in
theorem forget_kernel (kernel : Nat → Option (EpollEvent C Events)) (n : Nat)
    (event : Option (EpollEvent C Events)) :
    (fun m => (Function.update kernel n event m).map (·.events)) =
      Function.update (fun m => (kernel m).map (·.events)) n (event.map (·.events)) := by
  funext m
  by_cases hm : m = n
  · rw [hm, Function.update_self, Function.update_self]
  · rw [Function.update_of_ne hm, Function.update_of_ne hm]

omit [DecidableEq C] in
theorem forget_update (operation : CtlOp) :
    (p.update fd events c operation).map forget = p.forget.update fd events c operation := by
  cases operation <;> cases hk : p.kernel (fd c) <;>
    simp [update, Pollers.EPollPoller.update, epollCtl, hk, forget, forget_kernel, Except.map]

omit [DecidableEq C] in
theorem map_check {a : Prop} [Decidable a] {r : Except Fault (EPollPoller C Events)} :
    (check a >>= fun _ => r).map forget = check a >>= fun _ => r.map forget := by
  by_cases h : a
  · rw [check_pos h, ok_bind, ok_bind]
  · rw [check_neg h, error_bind, error_bind, Except.map]

theorem map_setIndex {r : Except Fault (EPollPoller C Events)} {i : Index} :
    (r >>= fun p => .ok (p.setIndex c i)).map forget =
      r.map forget >>= fun p => .ok (p.setIndex c i) := by
  cases r with
  | ok p =>
    simp only [ok_bind, Except.map]
    rfl
  | error f => simp only [error_bind, Except.map]

/-- Without the pointers and the history the poller is the one that is run beside
`PollPoller`. -/
theorem forget_updateChannel :
    (p.updateChannel fd events c).map forget = p.forget.updateChannel fd events c := by
  have hindex : p.forget.index c = p.index c := rfl
  cases hi : p.index c with
  | kNew =>
    simp only [updateChannel, Pollers.EPollPoller.updateChannel, hindex, hi, map_check]
    rw [forget_update]
    rfl
  | kAdded =>
    simp only [updateChannel, Pollers.EPollPoller.updateChannel, hindex, hi, map_check]
    by_cases he : events c = kNoneEvent
    · have hzero : events c = 0 := he
      simp only [if_pos he, if_pos hzero, map_setIndex, forget_update]
      rfl
    · have hzero : ¬events c = 0 := he
      simp only [if_neg he, if_neg hzero, forget_update]
      rfl
  | kDeleted =>
    simp only [updateChannel, Pollers.EPollPoller.updateChannel, hindex, hi, map_check]
    rw [forget_update]
    rfl

theorem forget_removeChannel :
    (p.removeChannel fd events c).map forget = p.forget.removeChannel fd events c := by
  have hindex : p.forget.index c = p.index c := rfl
  have hchannels : p.forget.channels = p.channels := rfl
  simp only [removeChannel, Pollers.EPollPoller.removeChannel, hindex, hchannels, map_check]
  by_cases hch : p.channels (fd c) = none
  · rw [check_neg (by simpa using hch), error_bind, error_bind]
  · have hone : (p.erase (fd c)).2 = 1 := if_neg hch
    simp only [check_pos hone, ok_bind]
    by_cases hi : p.index c = .kAdded
    · simp only [if_pos hi, map_setIndex, forget_update]
      rfl
    · simp only [if_neg hi]
      rfl

end EPollPoller

end Muduo.Net.Epoll
