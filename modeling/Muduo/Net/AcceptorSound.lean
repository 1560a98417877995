import Muduo.Net.Acceptor

namespace Muduo.Net
open Muduo.Lib

namespace Acceptor

variable {limit : Nat} {s t : Acceptor limit} {e : Event limit} {es : List (Event limit)}
  {fd gd : Fin limit} {k : Nat} {w : FdOwner}

/-- What `idleFd_` is for, while it is valid. -/
def spare (s : Acceptor limit) : Option FdOwner :=
  match s.place with
  | .atRest | .closing => some .idle
  | .refusing => some .refused
  | .accepting | .opening | .destroyed => none

/-- What the acceptor has a descriptor for. -/
def purpose (s : Acceptor limit) (fd : Fin limit) : Option FdOwner :=
  if fd = s.acceptSocket then (if s.place = .destroyed then none else some .acceptSocket)
  else if s.idleFd = some fd then s.spare
  else none

/-- The acceptor has the descriptors it knows of and no others, and takes connections in the order
in which they come, leaving none out. -/
structure Sound (s : Acceptor limit) : Prop where
  apart : s.spare ≠ none → s.idleFd ≠ some s.acceptSocket
  own : ∀ fd w, w.Own → (s.fds.owner fd = some w ↔ s.purpose fd = some w)
  in_order : s.taken.map Prod.fst ++ s.backlog = List.range s.arrived

theorem Sound.free (h : s.Sound) (hfree : s.fds.owner fd = none) (hw : w.Own) :
    s.purpose fd ≠ some w := by
  intro he
  have := (h.own fd w hw).mpr he
  simp [hfree] at this

theorem Sound.socket (h : s.Sound) (hs : s.place ≠ .destroyed) :
    s.fds.owner s.acceptSocket = some .acceptSocket := by
  apply (h.own s.acceptSocket .acceptSocket trivial).mpr
  simp [purpose, hs]

theorem Sound.not_socket (h : s.Sound) (hs : s.place ≠ .destroyed) (hfree : s.fds.owner fd = none) :
    fd ≠ s.acceptSocket := by
  rintro rfl
  simp [h.socket hs] at hfree

/-- The same descriptors are the acceptor's. -/
structure SamePurpose (s t : Acceptor limit) : Prop where
  acceptSocket : t.acceptSocket = s.acceptSocket
  idleFd : t.idleFd = s.idleFd
  spare : t.spare = s.spare
  alive : s.place ≠ .destroyed ∧ t.place ≠ .destroyed

/-- Between other holders a descriptor may change hands. -/
theorem Sound.others (h : s.Sound) (hsame : SamePurpose s t)
    (howner : ∀ fd w, w.Own → (t.fds.owner fd = some w ↔ s.fds.owner fd = some w))
    (horder : t.taken.map Prod.fst ++ t.backlog = List.range t.arrived) : t.Sound where
  apart := by
    rw [hsame.spare, hsame.idleFd, hsame.acceptSocket]
    exact h.apart
  own fd w hw := by
    rw [howner fd w hw, h.own fd w hw]
    simp [purpose, hsame.spare, hsame.idleFd, hsame.acceptSocket, hsame.alive]
  in_order := horder

theorem accept_ok {fails : Option Errno} (h : s.accept fails = .ok (fd, k)) :
    s.fds.lowest = some fd ∧ fails = none ∧ s.backlog = k :: s.backlog.tail := by
  unfold accept at h
  split at h
  · cases h
  · split at h
    · cases h
    · split at h
      · cases h
      · rename_i hl _ _ _ _ hb
        cases h
        exact ⟨hl, rfl, by rw [hb]; rfl⟩

theorem accept_error {fails : Option Errno} {why : Errno} (h : s.accept fails = .error why)
    (hwhy : why.isExpected = false) : why ∈ fails := by
  unfold accept at h
  split at h
  · cases h
    simp [Errno.isExpected] at hwhy
  · split at h
    · cases h
      rfl
    · split at h
      · cases h
        simp [Errno.isExpected] at hwhy
      · cases h

theorem take_order (h : s.Sound) (hb : s.backlog = k :: s.backlog.tail) (handed : Bool) :
    (s.take k handed).taken.map Prod.fst ++ (s.take k handed).backlog =
      List.range (s.take k handed).arrived := by
  have := h.in_order
  rw [hb] at this
  simpa [take] using this

theorem owner_allot_other {fds : Descriptors limit FdOwner} {v : FdOwner} (hfree : fds.owner fd = none)
    (hv : ¬v.Own) (hw : w.Own) : (fds.allot fd v).owner gd = some w ↔ fds.owner gd = some w := by
  by_cases he : gd = fd
  · subst he
    have hne : v ≠ w := by
      intro he
      exact hv (he ▸ hw)
    simp [hfree, hne]
  · rw [Descriptors.owner_allot_of_ne he]

theorem owner_release_other {fds : Descriptors limit FdOwner} {v : FdOwner} (hown : fds.owner fd = some v)
    (hv : ¬v.Own) (hw : w.Own) : (fds.release fd).owner gd = some w ↔ fds.owner gd = some w := by
  by_cases he : gd = fd
  · subst he
    have hne : v ≠ w := by
      intro he
      exact hv (he ▸ hw)
    simp [hown, hne]
  · rw [Descriptors.owner_release_of_ne he]

theorem Sound.handleRead (h : s.Sound) (hrest : s.place = .atRest) (fails : Option Errno)
    (errnoKept : Bool) :
    Yields Sound (fun f => f = .fatal ∧ ∃ e ∈ fails, ¬e.isExpected)
      (Acceptor.handleRead s fails errnoKept) := by
  unfold Acceptor.handleRead
  cases ha : s.accept fails with
  | ok got =>
    obtain ⟨fd, k⟩ := got
    simp only
    obtain ⟨hl, -, hb⟩ := accept_ok ha
    have hfree := Descriptors.lowest_free hl
    by_cases hcallback : s.newConnectionCallback
    · rw [if_pos hcallback]
      refine h.others ⟨rfl, rfl, ?_, ?_⟩ ?_ (take_order h hb true)
      · simp [spare, take, hrest]
      · simp [take, hrest]
      · intro gd w hw
        exact owner_allot_other hfree (by simp [FdOwner.Own]) hw
    · rw [if_neg hcallback]
      refine h.others ⟨rfl, rfl, ?_, ?_⟩ ?_ (take_order h hb false)
      · simp [spare, take, hrest]
      · simp [take, hrest]
      · intro gd w hw
        rw [← owner_allot_other hfree (v := .connection k) (by simp [FdOwner.Own]) hw]
        exact owner_release_other Descriptors.owner_allot (by simp [FdOwner.Own]) hw
  | error e =>
    have hfails : e.isExpected = false → e ∈ fails := by
      intro he
      exact accept_error ha he
    by_cases he : e.isExpected
    · simp only [he, if_true]
      split
      · exact h.others ⟨rfl, rfl, by simp [spare, hrest], by simp [hrest]⟩ (by simp) h.in_order
      · exact h
    · simp only [he]
      exact ⟨rfl, e, hfails (by simpa using he), he⟩

/-- `close(idleFd_)`. -/
theorem Sound.close (h : s.Sound) (halive : s.place ≠ .destroyed) (hspare : s.spare ≠ none)
    (place : Place) (hplace : place = .accepting ∨ place = .opening) :
    Sound { s with fds := s.fds.close s.idleFd, place := place } where
  apart := by
    rcases hplace with he | he
    · simp [spare, he]
    · simp [spare, he]
  own gd w hw := by
    have hpurpose : purpose { s with fds := s.fds.close s.idleFd, place := place } gd =
        if gd = s.acceptSocket then some .acceptSocket else none := by
      rcases hplace with he | he
      · simp [purpose, spare, he]
      · simp [purpose, spare, he]
    have hown := h.own gd w hw
    rw [hpurpose]
    simp only [purpose, if_neg halive] at hown
    cases hi : s.idleFd with
    | none => simpa [hi] using hown
    | some fd =>
      have hne : fd ≠ s.acceptSocket := by
        rintro rfl
        exact h.apart hspare hi
      by_cases he : gd = fd
      · subst he
        simp [hne]
      · rw [Descriptors.close_some, Descriptors.owner_release_of_ne he, hown, hi]
        simp [Ne.symm he]
  in_order := h.in_order

/-- `idleFd_` is set to a descriptor that was just opened. -/
theorem Sound.open (h : s.Sound) (halive : s.place ≠ .destroyed) (hspare : s.spare = none)
    (hfree : s.fds.owner fd = none) (hfds : t.fds = s.fds.allot fd w) (hidle : t.idleFd = some fd)
    (hsocket : t.acceptSocket = s.acceptSocket) (hplace : t.place ≠ .destroyed)
    (ht : t.spare = some w)
    (horder : t.taken.map Prod.fst ++ t.backlog = List.range t.arrived) : t.Sound where
  apart := by
    intro _
    rw [hidle, hsocket]
    simpa using h.not_socket halive hfree
  own gd v hv := by
    have hne := h.not_socket halive hfree
    have hown := h.own gd v hv
    simp only [purpose, if_neg halive, hspare, ite_self] at hown
    simp only [purpose, hsocket, if_neg hplace, hidle, ht, hfds]
    by_cases he : gd = fd
    · subst he
      simp [hne]
    · rw [Descriptors.owner_allot_of_ne he, hown]
      simp [Ne.symm he]
  in_order := horder

/-- `idleFd_` is set to -1. -/
theorem Sound.lose (h : s.Sound) (hspare : s.spare = none) (halive : s.place ≠ .destroyed)
    (place : Place) (hplace : place ≠ .destroyed) :
    Sound { s with idleFd := none, place := place } where
  apart := by simp
  own gd w hw := by
    have hown := h.own gd w hw
    simp only [purpose, if_neg halive, hspare, ite_self] at hown
    simpa [purpose, hplace] using hown
  in_order := h.in_order

theorem Sound.proceed (h : s.Sound) (fails : Option Errno) : (Acceptor.proceed s fails).Sound := by
  unfold Acceptor.proceed
  cases hp : s.place with
  | atRest | destroyed => exact h
  | closing => exact h.close (by simp [hp]) (by simp [spare, hp]) .accepting (.inl rfl)
  | refusing => exact h.close (by simp [hp]) (by simp [spare, hp]) .opening (.inr rfl)
  | accepting =>
    have hspare : s.spare = none := by simp [spare, hp]
    have halive : s.place ≠ .destroyed := by simp [hp]
    cases ha : s.accept fails with
    | ok got =>
      obtain ⟨fd, k⟩ := got
      obtain ⟨hl, -, hb⟩ := accept_ok ha
      exact h.open halive hspare (Descriptors.lowest_free hl) rfl rfl rfl (by simp) rfl
        (take_order h hb false)
    | error why => exact h.lose hspare halive .refusing (by simp)
  | opening =>
    have hspare : s.spare = none := by simp [spare, hp]
    have halive : s.place ≠ .destroyed := by simp [hp]
    cases hl : s.fds.lowest with
    | none => exact h.lose hspare halive .atRest (by simp)
    | some fd =>
      cases fails with
      | some why => exact h.lose hspare halive .atRest (by simp)
      | none =>
        exact h.open halive hspare (Descriptors.lowest_free hl) rfl rfl rfl (by simp) rfl
          h.in_order

theorem Sound.destroy (h : s.Sound) (hrest : s.place = .atRest) : s.destroy.Sound where
  apart := by simp [Acceptor.destroy, spare]
  own gd w hw := by
    have hclosed := h.close (by simp [hrest]) (by simp [spare, hrest]) .accepting (.inl rfl)
    have hown := hclosed.own gd w hw
    have hpurpose : s.destroy.purpose gd = none := by
      unfold purpose
      split
      · rfl
      · split
        · rfl
        · rfl
    simp only [purpose, spare] at hown
    rw [hpurpose]
    by_cases he : gd = s.acceptSocket
    · simp [Acceptor.destroy, he]
    · simpa [Acceptor.destroy, Descriptors.owner_release_of_ne he, he] using hown
  in_order := h.in_order

theorem Sound.openOther (h : s.Sound) : s.openOther.Sound := by
  unfold Acceptor.openOther
  cases hl : s.fds.lowest with
  | none => exact h
  | some fd =>
    refine ⟨h.apart, ?_, h.in_order⟩
    intro gd w hw
    rw [owner_allot_other (Descriptors.lowest_free hl) (by simp [FdOwner.Own]) hw]
    exact h.own gd w hw

/-- The error is one that `sockets::accept` expects. -/
def Event.Expected : Event limit → Prop
  | .handleRead fails _ => ∀ e ∈ fails, e.isExpected
  | _ => True

theorem Sound.step (h : s.Sound) (he : s.enabled e) (hexpected : e.Expected) :
    Yields Sound (fun _ => False) (Acceptor.step s e) := by
  cases e with
  | arrive =>
    refine ⟨h.apart, h.own, ?_⟩
    rw [← List.append_assoc, h.in_order]
    exact List.range_succ.symm
  | handleRead fails errnoKept =>
    apply (h.handleRead he fails errnoKept).weaken
    intro f hf
    obtain ⟨-, e, hmem, hne⟩ := hf
    exact hne (hexpected e hmem)
  | proceed fails => exact h.proceed fails
  | openOther => exact h.openOther
  | closeOther fd =>
    refine ⟨h.apart, ?_, h.in_order⟩
    intro gd w hw
    obtain ⟨v, hv, hother⟩ := he
    rw [owner_release_other hv hother hw]
    exact h.own gd w hw
  | destroy => exact h.destroy he

theorem new_sound {fds : Descriptors limit FdOwner} {callback : Bool}
    (hfds : ∀ fd w, fds.owner fd = some w → ¬w.Own) (h : new fds callback = .ok s) : s.Sound := by
  unfold new at h
  cases hl : fds.lowest with
  | none => simp [hl] at h
  | some fd =>
    simp only [hl] at h
    cases hi : (fds.allot fd .acceptSocket).lowest with
    | none => simp [hi] at h
    | some gd =>
      simp only [hi, Except.ok.injEq] at h
      subst h
      have hne : gd ≠ fd := by
        rintro rfl
        have := Descriptors.lowest_free hi
        simp at this
      refine ⟨fun _ => by simpa using hne, ?_, rfl⟩
      intro x w hw
      have hother : fds.owner x ≠ some w := by
        intro hx
        exact hfds x w hx hw
      by_cases hgd : x = gd
      · subst hgd
        simp [purpose, spare, hne]
      · rw [Descriptors.owner_allot_of_ne hgd]
        by_cases hfd : x = fd
        · subst hfd
          simp [purpose]
        · rw [Descriptors.owner_allot_of_ne hfd]
          simp [purpose, hfd, hother, Ne.symm hgd]

/-- What the acceptor does itself. -/
def Event.Own : Event limit → Prop
  | .handleRead _ _ | .proceed _ | .destroy => True
  | .arrive | .openOther | .closeOther _ => False

/-- Descriptors of connections and of other threads stay theirs. -/
def LeavesOthers (s t : Acceptor limit) : Prop :=
  ∀ fd w, s.fds.owner fd = some w → ¬w.Own → t.fds.owner fd = some w

theorem leaves_opened {fds : Descriptors limit FdOwner} {v : FdOwner} (hl : fds.lowest = some fd)
    (hg : fds.owner gd = some w) : (fds.allot fd v).owner gd = some w := by
  rw [Descriptors.owner_of_lowest hl (by simp [hg]), hg]

theorem Sound.leaves_closed (h : s.Sound) (hspare : s.spare ≠ none)
    (hg : s.fds.owner gd = some w) (hw : ¬w.Own) : (s.fds.close s.idleFd).owner gd = some w := by
  cases hi : s.idleFd with
  | none => exact hg
  | some fd =>
    obtain ⟨v, hv⟩ := Option.ne_none_iff_exists'.mp hspare
    have hne : fd ≠ s.acceptSocket := by
      rintro rfl
      exact h.apart hspare hi
    have hvown : v.Own := by
      cases hp : s.place <;> simp [spare, hp] at hv <;> subst hv <;> trivial
    have howner : s.fds.owner fd = some v := (h.own fd v hvown).mpr (by simp [purpose, hne, hi, hv])
    have hgd : gd ≠ fd := by
      rintro rfl
      rw [howner] at hg
      cases hg
      exact hw hvown
    rwa [Descriptors.close_some, Descriptors.owner_release_of_ne hgd]

theorem Sound.leaves_others (h : s.Sound) (he : s.enabled e) (hown : e.Own)
    (hs : Acceptor.step s e = .ok t) : LeavesOthers s t := by
  intro gd w hg hw
  cases e with
  | arrive | openOther | closeOther => exact hown.elim
  | handleRead fails errnoKept =>
    simp only [Acceptor.step, Acceptor.handleRead] at hs
    cases ha : s.accept fails with
    | ok got =>
      obtain ⟨fd, k⟩ := got
      obtain ⟨hl, -, -⟩ := accept_ok ha
      have hkept := leaves_opened (v := .connection k) hl hg
      simp only [ha] at hs
      by_cases hcallback : s.newConnectionCallback
      · rw [if_pos hcallback] at hs
        cases hs
        exact hkept
      · rw [if_neg hcallback] at hs
        cases hs
        have hne : gd ≠ fd := by
          rintro rfl
          simp [Descriptors.lowest_free hl] at hg
        rwa [Descriptors.owner_release_of_ne hne]
    | error why =>
      simp only [ha] at hs
      by_cases hwhy : why.isExpected
      · rw [if_pos hwhy] at hs
        split at hs
        · cases hs
          exact hg
        · cases hs
          exact hg
      · rw [if_neg hwhy] at hs
        cases hs
  | proceed fails =>
    cases hs
    obtain ⟨hrest, halive⟩ := he
    unfold Acceptor.proceed
    cases hp : s.place with
    | atRest => exact absurd hp hrest
    | destroyed => exact absurd hp halive
    | closing => exact h.leaves_closed (by simp [spare, hp]) hg hw
    | refusing => exact h.leaves_closed (by simp [spare, hp]) hg hw
    | accepting =>
      cases ha : s.accept fails with
      | ok got =>
        obtain ⟨fd, k⟩ := got
        exact leaves_opened (accept_ok ha).1 hg
      | error why => exact hg
    | opening =>
      cases hl : s.fds.lowest with
      | none => exact hg
      | some fd =>
        cases fails with
        | some why => exact hg
        | none => exact leaves_opened hl hg
  | destroy =>
    cases hs
    have halive : s.place ≠ .destroyed := by
      rw [he]
      simp
    have hne : gd ≠ s.acceptSocket := by
      rintro rfl
      rw [h.socket halive] at hg
      cases hg
      exact hw trivial
    have hclosed := h.leaves_closed (by simp [spare, show s.place = .atRest from he]) hg hw
    simpa [Acceptor.destroy, Descriptors.owner_release_of_ne hne] using hclosed

/-- Every connection is taken once, in turn. The acceptor has its socket and at most one more
descriptor, between two calls only a spare one; after its destructor it has none. What it does never
touches a descriptor that is not its own. -/
structure Accounted (s : Acceptor limit) : Prop where
  in_order : s.taken.map Prod.fst ++ s.backlog = List.range s.arrived
  socket : s.place ≠ .destroyed → s.fds.owner s.acceptSocket = some .acceptSocket
  spare : s.place = .atRest → ∀ fd ∈ s.idleFd, s.fds.owner fd = some .idle
  few : ∀ fd w, s.fds.owner fd = some w → w.Own → fd = s.acceptSocket ∨ s.idleFd = some fd
  at_rest : s.place = .atRest → ∀ fd, s.fds.owner fd ≠ some .refused
  gone : s.place = .destroyed → ∀ fd w, s.fds.owner fd = some w → ¬w.Own
  leaves_others : ∀ e t, e.Own → s.enabled e → Acceptor.step s e = .ok t → LeavesOthers s t

theorem Sound.accounted (h : s.Sound) : s.Accounted where
  in_order := h.in_order
  socket := h.socket
  spare hrest fd hfd := by
    have hne : fd ≠ s.acceptSocket := by
      rintro rfl
      exact h.apart (by simp [Acceptor.spare, hrest]) hfd
    have hidle : s.idleFd = some fd := hfd
    exact (h.own fd .idle trivial).mpr (by simp [purpose, hne, hidle, Acceptor.spare, hrest])
  few fd w hfd hw := by
    have hpurpose := (h.own fd w hw).mp hfd
    unfold purpose at hpurpose
    split at hpurpose
    · exact .inl ‹_›
    · split at hpurpose
      · exact .inr ‹_›
      · cases hpurpose
  at_rest hrest fd hfd := by
    have hpurpose := (h.own fd .refused trivial).mp hfd
    simp only [purpose, hrest, Acceptor.spare] at hpurpose
    split at hpurpose
    · cases hpurpose
    · split at hpurpose
      · cases hpurpose
      · cases hpurpose
  gone hgone fd w hfd hw := by
    have hpurpose := (h.own fd w hw).mp hfd
    simp [purpose, hgone, Acceptor.spare] at hpurpose
  leaves_others e t hown he hs := h.leaves_others he hown hs

/-- In whatever way other threads open and close descriptors meanwhile, connections and descriptors
are accounted for. -/
theorem descriptors_accounted {fds : Descriptors limit FdOwner} {callback : Bool}
    (hfds : ∀ fd w, fds.owner fd = some w → ¬w.Own) (h : new fds callback = .ok s)
    (hl : machine.Legal (fun _ e => e.Expected) s es) :
    Yields Accounted (fun _ => False) (machine.run s es) :=
  (Machine.run_keeps (fun _ _ hi he hc => hi.step he hc) (new_sound hfds h) hl).mono
    fun _ ht => ht.accounted

instance : ∀ e : Event limit, Decidable e.Expected
  | .handleRead fails _ => inferInstanceAs (Decidable (∀ e ∈ fails, _))
  | .arrive | .proceed _ | .openOther | .closeOther _ | .destroy => isTrue trivial

/-- Two descriptors are left, and another thread takes the one that `handleRead` gives up. -/
def crowdedTable : Descriptors 4 FdOwner := ⟨fun fd => if fd.val < 2 then some .other else none⟩

def crowdedRun (a b : Fin 4) : List (Event 4) :=
  [.arrive, .arrive, .handleRead none true, .proceed none, .openOther, .proceed none,
    .closeOther a, .proceed none, .proceed none, .handleRead none true, .proceed none,
    .proceed none, .proceed none, .proceed none, .closeOther b, .handleRead none true, .destroy]

theorem descriptors_accounted_sample : ∃ s, new crowdedTable true = .ok s ∧
    Yields Accounted (fun _ => False) (machine.run s (crowdedRun 0 1)) := by
  obtain ⟨s, hs, hl⟩ : ∃ s, new crowdedTable true = .ok s ∧
      machine.Legal (fun _ e => e.Expected) s (crowdedRun 0 1) := ⟨_, rfl, by decide +kernel⟩
  exact ⟨s, hs, descriptors_accounted (by decide) hs hl⟩

/-- System calls fail only for want of descriptors, and no other thread opens one between the two
ends of the branch for `EMFILE`. -/
def Undisturbed (s : Acceptor limit) : Event limit → Prop
  | .handleRead fails errnoKept => fails = none ∧ errnoKept = true
  | .proceed fails => fails = none
  | .openOther => s.place ≠ .accepting ∧ s.place ≠ .refusing ∧ s.place ≠ .opening
  | _ => True

/-- There is a descriptor for the next step that needs one. -/
def Ready (s : Acceptor limit) : Prop :=
  match s.place with
  | .atRest | .closing => s.idleFd ≠ none
  | .refusing => s.idleFd ≠ none ∨ s.fds.Free
  | .accepting | .opening => s.fds.Free
  | .destroyed => True

theorem Ready.handleRead (h : s.Ready) (hrest : s.place = .atRest)
    (hs : Acceptor.handleRead s none true = .ok t) : t.Ready := by
  have hidle : s.idleFd ≠ none := by simpa [Ready, hrest] using h
  unfold Acceptor.handleRead at hs
  split at hs
  · split at hs
    · cases hs
      simpa [Ready, take, hrest] using hidle
    · cases hs
      simpa [Ready, take, hrest] using hidle
  · split at hs
    · split at hs
      · cases hs
        exact hidle
      · cases hs
        exact h
    · cases hs

theorem Ready.proceed (h : s.Ready) : (Acceptor.proceed s none).Ready := by
  unfold Acceptor.proceed
  cases hp : s.place with
  | atRest | destroyed => simpa [hp] using h
  | closing =>
    have hidle : s.idleFd ≠ none := by simpa [Ready, hp] using h
    obtain ⟨fd, hfd⟩ := Option.ne_none_iff_exists'.mp hidle
    simpa [Ready, hfd] using Descriptors.free_release
  | accepting =>
    have hfree : s.fds.Free := by simpa [Ready, hp] using h
    cases ha : s.accept none with
    | ok got => simp [Ready]
    | error why => exact .inr hfree
  | refusing =>
    have hfree : s.idleFd ≠ none ∨ s.fds.Free := by simpa [Ready, hp] using h
    cases hi : s.idleFd with
    | none => simpa [Ready, hi] using hfree
    | some fd => simpa [Ready] using Descriptors.free_release
  | opening =>
    have hfree : s.fds.Free := by simpa [Ready, hp] using h
    obtain ⟨fd, hfd⟩ := Descriptors.lowest_of_free hfree
    simp [Ready, hfd]

theorem Ready.step (h : s.Ready) (he : s.enabled e) (hc : s.Undisturbed e)
    (hs : Acceptor.step s e = .ok t) : t.Ready := by
  cases e with
  | arrive =>
    cases hs
    exact h
  | handleRead fails errnoKept =>
    obtain ⟨rfl, rfl⟩ := hc
    exact h.handleRead he hs
  | proceed fails =>
    obtain rfl : fails = none := hc
    cases hs
    exact h.proceed
  | openOther =>
    cases hs
    unfold Acceptor.openOther
    split
    · exact h
    · obtain ⟨haccepting, hrefusing, hopening⟩ := hc
      cases hp : s.place <;> simp_all [Ready]
  | closeOther fd =>
    cases hs
    have hfree : ∀ fd, (s.fds.release fd).Free := fun _ => Descriptors.free_release
    cases hp : s.place <;> simp_all [Ready]
  | destroy =>
    cases hs
    simp [Ready, Acceptor.destroy]

/-- Of a connection waiting when `handleRead` was called: it has been taken since, or will be. -/
def Advances (s t : Acceptor limit) : Prop :=
  s.taken.length < t.taken.length ∨
    t.taken.length = s.taken.length ∧ t.backlog ≠ [] ∧ (t.place = .closing ∨ t.place = .accepting)

theorem accept_free {fails : Option Errno} (hfree : s.fds.lowest = some fd) (hf : fails = none)
    (hb : s.backlog ≠ []) : ∃ k, s.accept fails = .ok (fd, k) := by
  obtain ⟨k, rest, hk⟩ := List.exists_cons_of_ne_nil hb
  exact ⟨k, by simp [accept, hfree, hf, hk]⟩

theorem handleRead_advances (hb : s.backlog ≠ []) (hs : Acceptor.handleRead s none true = .ok t) :
    Advances s t := by
  unfold Acceptor.handleRead at hs
  cases hl : s.fds.lowest with
  | none =>
    have ha : s.accept none = .error .EMFILE := by simp [accept, hl]
    simp only [ha, Errno.isExpected, if_true, and_self, Except.ok.injEq] at hs
    subst hs
    exact .inr ⟨rfl, hb, .inl rfl⟩
  | some fd =>
    obtain ⟨k, ha⟩ := accept_free hl rfl hb
    simp only [ha] at hs
    split at hs
    · cases hs
      exact .inl (by simp [take])
    · cases hs
      exact .inl (by simp [take])

theorem proceed_taken (s : Acceptor limit) (fails : Option Errno) :
    s.taken.length ≤ (Acceptor.proceed s fails).taken.length := by
  unfold Acceptor.proceed
  cases s.place with
  | accepting => cases s.accept fails <;> simp [take]
  | opening => cases s.fds.lowest <;> cases fails <;> simp
  | _ => simp

theorem Advances.step {u : Acceptor limit} (h : Advances s t) (hready : t.Ready)
    (he : t.enabled e) (hc : t.Undisturbed e) (hs : Acceptor.step t e = .ok u) :
    Advances s u := by
  cases e with
  | arrive =>
    cases hs
    rcases h with hmore | ⟨hsame, hb, hp⟩
    · exact .inl hmore
    · exact .inr ⟨hsame, by simp, hp⟩
  | handleRead fails errnoKept =>
    have hrest : t.place = .atRest := he
    rcases h with hmore | ⟨-, -, hp⟩
    · have hle : t.taken.length ≤ u.taken.length := by
        simp only [Acceptor.step, Acceptor.handleRead] at hs
        split at hs
        · split at hs <;> cases hs <;> simp [take]
        · split at hs
          · split at hs <;> cases hs <;> simp
          · cases hs
      exact .inl (Nat.lt_of_lt_of_le hmore hle)
    · simp [hrest] at hp
  | proceed fails =>
    obtain rfl : fails = none := hc
    cases hs
    rcases h with hmore | ⟨hsame, hb, hp⟩
    · exact .inl (Nat.lt_of_lt_of_le hmore (proceed_taken t none))
    · rcases hp with hp | hp
      · exact .inr (by simp [Acceptor.proceed, hp, hsame, hb])
      · have hfree : t.fds.Free := by simpa [Ready, hp] using hready
        obtain ⟨fd, hfd⟩ := Descriptors.lowest_of_free hfree
        obtain ⟨k, ha⟩ := accept_free hfd rfl hb
        exact .inl (by simp [Acceptor.proceed, hp, ha, take, hsame])
  | openOther =>
    cases hs
    unfold Acceptor.openOther
    split
    · exact h
    · exact h
  | closeOther fd =>
    cases hs
    exact h
  | destroy =>
    have hrest : t.place = .atRest := he
    cases hs
    rcases h with hmore | ⟨-, -, hp⟩
    · exact .inl hmore
    · simp [hrest] at hp

theorem new_ready {fds : Descriptors limit FdOwner} {callback : Bool}
    (h : new fds callback = .ok s) : s.Ready := by
  unfold new at h
  split at h
  · cases h
  · simp only at h
    split at h
    · cases h
    · cases h
      simp [Ready]

theorem run_ready (h : s.Ready) (hs : machine.Reaches Undisturbed s es t) : t.Ready :=
  hs.keeps (fun _ _ _ hi he hc hstep => hi.step he hc hstep) h

theorem run_advances (hready : s.Ready) (hb : s.backlog ≠ [])
    (hs : machine.Reaches Undisturbed s (.handleRead none true :: es) t) : Advances s t := by
  obtain ⟨u, hu, hr⟩ := bind_ok hs.2
  have hfirst : u.Ready := hready.step (e := .handleRead none true) hs.1.1 hs.1.2.1 hu
  have hrest : machine.Reaches Undisturbed u es t := ⟨hs.1.2.2 u hu, hr⟩
  have hboth : t.Ready ∧ Advances s t := hrest.keeps (I := fun v => v.Ready ∧ Advances s v)
    (fun _ _ _ hi he hc hstep => ⟨hi.1.step he hc hstep, hi.2.step hi.1 he hc hstep⟩)
    ⟨hfirst, handleRead_advances hb hu⟩
  exact hboth.2

/-- Without a spare descriptor, and with no other, `handleRead` changes nothing, and is called
again for the same connection. -/
theorem handleRead_starved (hrest : s.place = .atRest) (hidle : s.idleFd = none)
    (hfull : s.fds.lowest = none) :
    machine.run s [.handleRead none true, .proceed none, .proceed none, .proceed none,
      .proceed none] = .ok s := by
  cases s with
  | mk fds socket idleFd callback place backlog arrived taken =>
    simp only at hrest hidle hfull
    subst hrest hidle
    simp [machine, Acceptor.step, Acceptor.handleRead, Acceptor.proceed, accept, hfull,
      Errno.isExpected]

/-- Undisturbed, an acceptor always has a spare descriptor when it comes to rest, and each time
that `handleRead` is called with a connection waiting one is taken. Without the spare descriptor a
full table lets it take none. -/
theorem spare_kept {fds : Descriptors limit FdOwner} {callback : Bool}
    (h : new fds callback = .ok s) (hs : machine.Reaches Undisturbed s es t)
    (hrest : t.place = .atRest) :
    t.idleFd ≠ none ∧
    (∀ fs u, t.backlog ≠ [] → machine.Reaches Undisturbed t (.handleRead none true :: fs) u →
      u.place = .atRest → t.taken.length < u.taken.length) ∧
    ∀ v : Acceptor limit, v.place = .atRest → v.idleFd = none → v.fds.lowest = none →
      machine.run v [.handleRead none true, .proceed none, .proceed none, .proceed none,
        .proceed none] = .ok v := by
  have hready : t.Ready := run_ready (new_ready h) hs
  refine ⟨by simpa [Ready, hrest] using hready, ?_, fun v => handleRead_starved⟩
  intro fs u hb hu hurest
  rcases run_advances hready hb hu with hmore | ⟨-, -, hp⟩
  · exact hmore
  · simp [hurest] at hp

instance (s : Acceptor limit) : ∀ e : Event limit, Decidable (s.Undisturbed e)
  | .handleRead fails _ => inferInstanceAs (Decidable (fails = none ∧ _))
  | .proceed fails => inferInstanceAs (Decidable (fails = none))
  | .openOther => inferInstanceAs (Decidable (_ ∧ _))
  | .arrive | .closeOther _ | .destroy => isTrue trivial

def quietRun : List (Event 4) :=
  [.arrive, .handleRead none true, .proceed none, .arrive, .proceed none, .proceed none,
    .proceed none]

theorem spare_kept_sample : ∃ s t, new crowdedTable true = .ok s ∧ machine.run s quietRun = .ok t ∧
    t.idleFd ≠ none := by
  obtain ⟨s, t, hs, hl, ht, hrest⟩ : ∃ s t, new crowdedTable true = .ok s ∧
      machine.Legal Undisturbed s quietRun ∧ machine.run s quietRun = .ok t ∧ t.place = .atRest :=
    ⟨_, _, rfl, by decide +kernel, rfl, rfl⟩
  exact ⟨s, t, hs, ht, (spare_kept hs ⟨hl, ht⟩ hrest).1⟩

end Acceptor

end Muduo.Net
