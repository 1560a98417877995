import Muduo.Net.TimerHistory

namespace Muduo.Net
open Muduo.Lib

namespace TimerQueue

variable {q q' : TimerQueue} {loose : List Addr}

/-- The timers of `q'` are timers of `q`, and none of them is one that `reset` was to drop. -/
structure Survives (q q' : TimerQueue) (batch : List Addr) : Prop where
  same : ∀ p t, q'.heap p = some t → ∃ u, q.heap p = some u ∧ u.sequence = t.sequence
  kept : ∀ p t, q'.heap p = some t → p ∈ batch → ⟨p, t.sequence⟩ ∉ q.cancelingTimers
  canceling : q'.cancelingTimers = q.cancelingTimers

theorem resetOne_survives {p : Addr} (w now : Timestamp) (hb : q.Books (p :: loose)) :
    ∃ q', q.resetOne now ⟨w, p⟩ = .ok q' ∧ q'.Books loose ∧ Survives q q' [p] ∧
      ∀ p', p' ≠ p → q'.heap p' = q.heap p' := by
  obtain ⟨t, ht⟩ := hb.live p List.mem_cons_self
  cases hb.resetOne (w := w) ht now with
  | inl hagain =>
    obtain ⟨-, hkeep, q₁, hq₁, hstep, hbooks⟩ := hagain
    subst hq₁
    have hself : Function.update q.heap p (some (t.restart now)) p = some (t.restart now) :=
      Function.update_self ..
    refine ⟨_, hstep, hbooks, ⟨?_, ?_, rfl⟩, fun p' h => Function.update_of_ne h ..⟩
    · intro p' u hu
      by_cases h : p' = p
      · subst h
        cases hself.symm.trans hu
        exact ⟨t, ht, (Timer.restart_sequence t now).symm⟩
      · exact ⟨u, (Function.update_of_ne h ..).symm.trans hu, rfl⟩
    · intro p' u hu hp'
      cases List.mem_singleton.mp hp'
      cases hself.symm.trans hu
      rwa [Timer.restart_sequence]
  | inr hfreed =>
    obtain ⟨hstep, hbooks⟩ := hfreed
    have hself : Function.update q.heap p none p = none := Function.update_self ..
    refine ⟨_, hstep, hbooks, ⟨?_, ?_, rfl⟩, fun p' h => Function.update_of_ne h ..⟩
    · intro p' u hu
      by_cases h : p' = p
      · subst h
        cases hself.symm.trans hu
      · exact ⟨u, (Function.update_of_ne h ..).symm.trans hu, rfl⟩
    · intro p' u hu hp'
      cases List.mem_singleton.mp hp'
      cases hself.symm.trans hu

/-- After the loop of `reset`, no timer of the batch is left that `cancelingTimers_` lists. -/
theorem reset_turns_survive {es : List Entry} (now : Timestamp)
    (hb : q.Books (es.map Entry.timer ++ loose)) :
    ∃ q', es.foldlM (fun q e => q.resetOne now e) q = .ok q' ∧ q'.Books loose ∧
      Survives q q' (es.map Entry.timer) ∧
      ∀ p, p ∉ es.map Entry.timer → q'.heap p = q.heap p := by
  induction es generalizing q with
  | nil =>
    exact ⟨q, rfl, hb, ⟨fun p t ht => ⟨t, ht, rfl⟩, fun _ _ _ hp => absurd hp List.not_mem_nil, rfl⟩,
      fun _ _ => rfl⟩
  | cons e es ih =>
    have hnodup := hb.nodup
    rw [List.map_cons, List.cons_append] at hb hnodup
    have hfresh : e.timer ∉ es.map Entry.timer := fun h =>
      (List.nodup_cons.mp hnodup).1 (List.mem_append_left _ h)
    obtain ⟨q₁, hstep, hb₁, h₁, hother₁⟩ :=
      resetOne_survives e.expiration now hb
    obtain ⟨q', hfold, hb', h', hother'⟩ := ih hb₁
    refine ⟨q', ?_, hb', ⟨?_, ?_, h'.canceling.trans h₁.canceling⟩, ?_⟩
    · rw [List.foldlM_cons, hstep, ok_bind]
      exact hfold
    · intro p t ht
      obtain ⟨u, hu, hseq⟩ := h'.same p t ht
      obtain ⟨v, hv, hseq'⟩ := h₁.same p u hu
      exact ⟨v, hv, hseq'.trans hseq⟩
    · intro p t ht hp
      cases List.mem_cons.mp hp with
      | inl heq =>
        subst heq
        rw [hother' _ hfresh] at ht
        exact h₁.kept _ t ht (List.mem_singleton_self _)
      | inr hin =>
        have := h'.kept p t ht hin
        rwa [h₁.canceling] at this
    · intro p hp
      rw [List.map_cons, List.mem_cons, not_or] at hp
      rw [hother' p hp.2, hother₁ p hp.1]

theorem endRead_survives {es : List Entry} (now : Timestamp)
    (hb : q.Books (es.map Entry.timer ++ loose)) :
    ∃ q', q.endRead es now = .ok q' ∧ Survives q q' (es.map Entry.timer) := by
  obtain ⟨q₁, hfold, hb₁, h₁, -⟩ := reset_turns_survive
    (q := { q with callingExpiredTimers := false }) now (hb.congr rfl rfl rfl rfl)
  have hsurvive : Survives q q₁ (es.map Entry.timer) := ⟨h₁.same, h₁.kept, h₁.canceling⟩
  obtain ⟨w, hw⟩ := hb₁.nextExpire
  simp only [TimerQueue.endRead, TimerQueue.reset, hfold, hw, ok_bind]
  by_cases hvalid : w.valid
  · exact ⟨_, if_pos hvalid, hsurvive.same, hsurvive.kept, hsurvive.canceling⟩
  · exact ⟨_, if_neg hvalid, hsurvive⟩

end TimerQueue

namespace TimerRun

variable {s s' : TimerRun} {id : TimerId} {p : Addr} {t : Timer}

/-- The timer of an id still waits for its insertion, or it is in the batch that `handleRead`
runs and its callback has not been started. -/
def Ahead (s : TimerRun) (id : TimerId) : Prop :=
  ∃ t ∈ s.queue.heap id.timer, t.sequence = id.sequence ∧
    (id.timer ∈ s.waiting ∨ id.timer ∈ s.restTimers)

/-- `cancelInLoop` is not called for a timer that has its callback ahead of it. -/
def NotAhead (s : TimerRun) : Event → Prop
  | .cancelInLoop timerId => ¬s.Ahead timerId
  | _ => True

/-- The object of a cancelled timer is gone, or its callback has been started in the batch
that is being run, and `reset` will not put it back. -/
structure Stopped (s : TimerRun) : Prop where
  known : ∀ id ∈ s.cancelled, id ∈ s.created.map Created.id
  calling : s.expiry ≠ none → s.queue.callingExpiredTimers = true
  stopped : ∀ id ∈ s.cancelled, ∀ p t, s.queue.heap p = some t → t.sequence = id.sequence →
    p ∈ s.ranTimers ∧ ⟨p, t.sequence⟩ ∈ s.queue.cancelingTimers

theorem initial_stopped : Stopped initial where
  known := by simp [initial]
  calling := by simp [initial]
  stopped := by simp [initial]

/-- A timer of the heap is known under its own address and number. -/
theorem Sound.address_of (hs : Sound s) (hknown : id ∈ s.created.map Created.id)
    (ht : s.queue.heap p = some t) (hn : t.sequence = id.sequence) : id.timer = p := by
  obtain ⟨c, hc, hid⟩ := List.mem_map.mp hknown
  obtain ⟨c', hc', hid', -⟩ := hs.history.recorded p t ht
  have hseq : c.id.sequence = c'.id.sequence := by rw [hid, hid', hn]
  have hsame : c = c' := List.inj_on_of_nodup_map hs.history.keys hc hc' hseq
  rw [← hid, hsame, hid']

theorem Stopped.newTimer (h : Stopped s) (hs : Sound s) (p : Addr) (when : Timestamp)
    (interval : Int) (repeats : Bool) : Stopped (s.addTimer p when interval repeats) := by
  refine ⟨?_, h.calling, ?_⟩
  · intro id hid
    rw [addTimer, List.map_append]
    exact List.mem_append_left _ (h.known id hid)
  · intro id hid p' u hu hn
    by_cases hp : p' = p
    · -- the new number is larger than that of any timer known before
      subst hp
      cases (Function.update_self ..).symm.trans hu
      obtain ⟨c, hc, hcid⟩ := List.mem_map.mp (h.known id hid)
      have hle := hs.history.counted c hc
      rw [hcid, ← hn] at hle
      exact absurd hle (Nat.not_succ_le_self _)
    · exact h.stopped id hid p' u ((Function.update_of_ne hp ..).symm.trans hu) hn

theorem Stopped.addTimerInLoop (h : Stopped s) (hs : Sound s) (hp : p ∈ s.waiting)
    (hstep : s.addTimerInLoop p = .ok s') : Stopped s' := by
  have hmem : p ∈ s.ranTimers ++ s.restTimers ++ s.waiting := List.mem_append_right _ hp
  obtain ⟨t, ht⟩ := hs.books.live p hmem
  have hbooks := hs.books.perm (List.perm_cons_erase hmem)
  obtain ⟨fd, -, hadd, -⟩ := hbooks.addTimerInLoop ht
  have hderef : ({ s.queue.enter p t with timerfd := fd } : TimerQueue).deref p = .ok t :=
    TimerQueue.deref_of_live ht
  simp only [TimerRun.addTimerInLoop, hadd, ok_bind, hderef] at hstep
  cases hstep
  exact ⟨h.known, h.calling, h.stopped⟩

/-- A cancel stops its timer, unless that has its callback ahead of it. -/
theorem Stopped.cancelInLoop (h : Stopped s) (hs : Sound s)
    (hknown : id ∈ s.created.map Created.id) (hahead : ¬s.Ahead id)
    (hstep : s.cancelInLoop id = .ok s') : Stopped s' := by
  cases hs.books.cancelInLoop id with
  | inl hfound =>
    obtain ⟨t, ht, hn, -, hcancel, -⟩ := hfound
    simp only [TimerRun.cancelInLoop, hcancel, ok_bind] at hstep
    cases hstep
    refine ⟨?_, h.calling, ?_⟩
    · intro id' hid'
      cases List.mem_append.mp hid' with
      | inl hold => exact h.known id' hold
      | inr hnew =>
        cases List.mem_singleton.mp hnew
        exact hknown
    · intro id' hid' p u hu hseq
      by_cases hp : p = id.timer
      · subst hp
        cases (Function.update_self ..).symm.trans hu
      · replace hu : s.queue.heap p = some u := (Function.update_of_ne hp ..).symm.trans hu
        cases List.mem_append.mp hid' with
        | inl hold => exact h.stopped id' hold p u hu hseq
        | inr hnew =>
          cases List.mem_singleton.mp hnew
          exact absurd (hs.address_of hknown hu hseq).symm hp
  | inr hnoted =>
    obtain ⟨hnone, hcancel⟩ := hnoted
    simp only [TimerRun.cancelInLoop, hcancel, ok_bind] at hstep
    -- of the timers outside the sets, only one whose callback was started can be meant
    have hran : ∀ t, s.queue.heap id.timer = some t → t.sequence = id.sequence →
        id.timer ∈ s.ranTimers ∧ s.expiry ≠ none := by
      intro t ht hseq
      have hloose : id.timer ∈ s.ranTimers ++ s.restTimers ++ s.waiting := by
        by_contra hout
        exact hnone ((hs.books.active _ _).mpr ⟨t, ht, hseq, hout⟩)
      have hin : id.timer ∈ s.ranTimers := by
        by_contra hnot
        refine hahead ⟨t, ht, hseq, ?_⟩
        cases List.mem_append.mp hloose with
        | inl hbatch => exact .inr ((List.mem_append.mp hbatch).resolve_left hnot)
        | inr hwait => exact .inl hwait
      refine ⟨hin, ?_⟩
      intro hidle
      simp only [ranTimers, hidle] at hin
      cases hin
    have hknown' : ∀ id' ∈ s.cancelled ++ [id], id' ∈ s.created.map Created.id := by
      intro id' hid'
      cases List.mem_append.mp hid' with
      | inl hold => exact h.known id' hold
      | inr hnew =>
        cases List.mem_singleton.mp hnew
        exact hknown
    cases hcalling : s.queue.callingExpiredTimers with
    | true =>
      simp only [hcalling, if_true] at hstep
      cases hstep
      refine ⟨hknown', fun _ => rfl, ?_⟩
      intro id' hid' p u hu hseq
      cases List.mem_append.mp hid' with
      | inl hold =>
        obtain ⟨hin, hlisted⟩ := h.stopped id' hold p u hu hseq
        exact ⟨hin, OrderedSet.mem_insert.mpr (.inr hlisted)⟩
      | inr hnew =>
        cases List.mem_singleton.mp hnew
        have hp := hs.address_of hknown hu hseq
        subst hp
        refine ⟨(hran u hu hseq).1, OrderedSet.mem_insert.mpr (.inl ?_)⟩
        rw [hseq]
    | false =>
      simp only [hcalling, Bool.false_eq_true, if_false] at hstep
      cases hstep
      refine ⟨hknown', h.calling, ?_⟩
      intro id' hid' p u hu hseq
      cases List.mem_append.mp hid' with
      | inl hold => exact h.stopped id' hold p u hu hseq
      | inr hnew =>
        cases List.mem_singleton.mp hnew
        have hp := hs.address_of hknown hu hseq
        subst hp
        have hbusy := h.calling (hran u hu hseq).2
        rw [hcalling] at hbusy
        cases hbusy

theorem Stopped.beginRead (h : Stopped s) (hs : Sound s) (hidle : s.expiry = none)
    (hstep : s.beginRead = .ok s') : Stopped s' := by
  obtain ⟨a, hbegin, -⟩ := hs.books.beginRead
  simp only [TimerRun.beginRead, hbegin, ok_bind] at hstep
  cases hstep
  refine ⟨h.known, fun _ => rfl, ?_⟩
  intro id hid p u hu hseq
  have hin := (h.stopped id hid p u hu hseq).1
  simp only [ranTimers, hidle] at hin
  cases hin

/-- The timer whose callback is started next has not been cancelled. -/
theorem Stopped.next (h : Stopped s) (hs : Sound s) {b : Expiry} {e : Entry} {rest : List Entry}
    (hb : s.expiry = some b) (hrest : b.rest = e :: rest) (ht : s.queue.heap e.timer = some t)
    (hid : id ∈ s.cancelled) : t.sequence ≠ id.sequence := by
  intro hseq
  have hin := (h.stopped id hid e.timer t ht hseq).1
  have hnodup := hs.books.nodup
  simp only [ranTimers, restTimers, hb, hrest, List.map_cons] at hin hnodup
  rw [List.append_assoc] at hnodup
  exact (List.nodup_append'.mp hnodup).2.2 hin List.mem_cons_self

theorem Stopped.runNext (h : Stopped s) {b : Expiry} {e : Entry} {rest : List Entry}
    (hb : s.expiry = some b) (hstep : s.runNext b e rest = .ok s') : Stopped s' := by
  obtain ⟨t, -, hstep⟩ := bind_ok hstep
  cases hstep
  refine ⟨h.known, fun _ => h.calling (by rw [hb]; nofun), ?_⟩
  intro id hid p u hu hseq
  obtain ⟨hin, hlisted⟩ := h.stopped id hid p u hu hseq
  refine ⟨?_, hlisted⟩
  simp only [ranTimers, hb] at hin
  simp only [ranTimers, List.map_append]
  exact List.mem_append_left _ hin

theorem Stopped.endRead (h : Stopped s) (hs : Sound s) {b : Expiry} (hb : s.expiry = some b)
    (hrest : b.rest = []) (hstep : s.endRead b = .ok s') : Stopped s' := by
  have hbooks := hs.books
  simp only [ranTimers, restTimers, hb, hrest, List.map_nil, List.append_nil] at hbooks
  have hexp : b.expired = b.ran := by rw [Expiry.expired, hrest, List.append_nil]
  obtain ⟨q', hend, hq'⟩ := TimerQueue.endRead_survives b.now hbooks
  simp only [TimerRun.endRead, hexp, hend, ok_bind] at hstep
  cases hstep
  refine ⟨h.known, fun hbusy => absurd rfl hbusy, ?_⟩
  intro id hid p u hu hseq
  obtain ⟨v, hv, hsame⟩ := hq'.same p u hu
  obtain ⟨hin, hlisted⟩ := h.stopped id hid p v hv (hsame.trans hseq)
  simp only [ranTimers, hb] at hin
  rw [hsame] at hlisted
  exact absurd hlisted (hq'.kept p u hu hin)

/-- One step keeps cancelled timers stopped and starts no callback of theirs. -/
theorem Stopped.step (h : Stopped s) (hs : Sound s) {e : Event} (he : machine.enabled s e)
    (hc : NotAhead s e) (hstep : machine.step s e = .ok s') :
    Stopped s' ∧ ∀ id ∈ s.cancelled,
      id ∈ s'.cancelled ∧ s'.ran.count id.sequence = s.ran.count id.sequence := by
  cases e with
  | newTimer timer when interval repeats =>
    cases hstep
    exact ⟨h.newTimer hs timer when interval repeats, fun id hid => ⟨hid, rfl⟩⟩
  | addTimerInLoop timer =>
    refine ⟨h.addTimerInLoop hs he hstep, fun id hid => ?_⟩
    obtain ⟨q, -, hstep⟩ := bind_ok hstep
    obtain ⟨t, -, hstep⟩ := bind_ok hstep
    cases hstep
    exact ⟨hid, rfl⟩
  | cancelInLoop timerId =>
    refine ⟨h.cancelInLoop hs he hc hstep, fun id hid => ?_⟩
    obtain ⟨q, -, hstep⟩ := bind_ok hstep
    cases hstep
    exact ⟨List.mem_append_left _ hid, rfl⟩
  | setClock now =>
    cases hstep
    exact ⟨⟨h.known, h.calling, h.stopped⟩, fun id hid => ⟨hid, rfl⟩⟩
  | timerfdExpires =>
    cases hstep
    exact ⟨⟨h.known, h.calling, h.stopped⟩, fun id hid => ⟨hid, rfl⟩⟩
  | beginRead =>
    refine ⟨h.beginRead hs he hstep, fun id hid => ?_⟩
    obtain ⟨r, -, hstep⟩ := bind_ok hstep
    cases hstep
    exact ⟨hid, rfl⟩
  | runNext =>
    obtain ⟨b, hb, hne⟩ := he
    obtain ⟨e, rest, hrest⟩ := List.exists_cons_of_ne_nil hne
    simp only [machine, TimerRun.step, Option.mem_def.mp hb, hrest] at hstep
    refine ⟨h.runNext hb hstep, fun id hid => ?_⟩
    obtain ⟨t, ht, hstep⟩ := bind_ok hstep
    cases hstep
    have hlive : s.queue.heap e.timer = some t := by
      unfold TimerQueue.deref at ht
      split at ht
      · cases ht
        assumption
      · cases ht
    have hne := h.next hs hb hrest hlive hid
    exact ⟨hid, by simp [List.count_append, hne]⟩
  | endRead =>
    obtain ⟨b, hb, hrest⟩ := he
    simp only [machine, TimerRun.step, Option.mem_def.mp hb] at hstep
    refine ⟨h.endRead hs hb hrest hstep, fun id hid => ?_⟩
    obtain ⟨q, -, hstep⟩ := bind_ok hstep
    cases hstep
    exact ⟨hid, rfl⟩

/-- From the moment a `cancelInLoop` has finished, the callback of its timer is not started. -/
def CancelsHold (es : List Event) : Prop :=
  ∀ fs gs s s', es = fs ++ gs → machine.run initial fs = .ok s → machine.run s gs = .ok s' →
    ∀ id ∈ s.cancelled, s'.ran.count id.sequence = s.ran.count id.sequence

/-- A run that cancels no timer with its callback ahead of it keeps cancelled timers stopped. -/
theorem cancelled_not_started {es : List Event} (hl : machine.Legal NotAhead initial es) :
    CancelsHold es := by
  intro fs gs s s' hes hfs hgs id hid
  subst hes
  have hkeeps : ∀ s e, Sound s ∧ Stopped s → machine.enabled s e → NotAhead s e →
      Yields (fun s => Sound s ∧ Stopped s) (fun _ => False) (machine.step s e) := by
    intro s e hs he hc
    obtain ⟨s', hstep, hs'⟩ := hs.1.step he
    rw [hstep]
    exact ⟨hs', (hs.2.step hs.1 he hc hstep).1⟩
  have hbefore := Machine.run_keeps hkeeps ⟨initial_sound, initial_stopped⟩ hl.left
  have hafter := Machine.run_keeps
    (I := fun u => (Sound u ∧ Stopped u) ∧
      id ∈ u.cancelled ∧ u.ran.count id.sequence = s.ran.count id.sequence)
    (b := fun _ => False)
    (by
      intro u e hu he hc
      obtain ⟨v, hstep, hv⟩ := hu.1.1.step he
      obtain ⟨hstopped, hcount⟩ := hu.1.2.step hu.1.1 he hc hstep
      obtain ⟨hin, hsame⟩ := hcount id hu.2.1
      rw [hstep]
      exact ⟨⟨hv, hstopped⟩, hin, hsame.trans hu.2.2⟩)
    ⟨hbefore.of_ok hfs, hid, rfl⟩ (hl.right hfs)
  exact (hafter.of_ok hgs).2.2

instance (s : TimerRun) (id : TimerId) : Decidable (s.Ahead id) :=
  inferInstanceAs (Decidable (∃ t ∈ s.queue.heap id.timer, _))

instance : ∀ s e, Decidable (NotAhead s e)
  | s, .cancelInLoop timerId => inferInstanceAs (Decidable (¬s.Ahead timerId))
  | _, .newTimer .. => isTrue trivial
  | _, .addTimerInLoop _ => isTrue trivial
  | _, .setClock _ => isTrue trivial
  | _, .timerfdExpires => isTrue trivial
  | _, .beginRead => isTrue trivial
  | _, .runNext => isTrue trivial
  | _, .endRead => isTrue trivial

/-- A repeating timer cancels itself, and a pending one. -/
def sampleCancels : List Event :=
  [.newTimer 16 100 20 true, .newTimer 32 200 0 false, .addTimerInLoop 16, .addTimerInLoop 32,
    .setClock 120, .beginRead, .runNext, .cancelInLoop ⟨16, 1⟩, .cancelInLoop ⟨32, 2⟩, .endRead,
    .setClock 250, .beginRead, .endRead]

theorem cancelled_not_started_sample : CancelsHold sampleCancels :=
  cancelled_not_started (by decide +kernel)

/-- Two timers expire together, and the callback of the first cancels the second, whose
callback is started nevertheless. -/
theorem cancelled_started : ¬ ∀ es, machine.Legal (fun _ _ => True) initial es →
    CancelsHold es := by
  intro h
  let fs : List Event := [.newTimer 16 100 0 false, .newTimer 32 100 0 false, .addTimerInLoop 16,
    .addTimerInLoop 32, .setClock 120, .beginRead, .runNext, .cancelInLoop ⟨32, 2⟩]
  have hlegal : machine.Legal (fun _ _ => True) initial (fs ++ [.runNext]) := by
    decide +kernel
  have hbefore : ((machine.run initial fs).toOption.map fun s => (s.cancelled, s.ran)) =
      some ([⟨32, 2⟩], [1]) := by
    decide +kernel
  have hafter : ((machine.run initial (fs ++ [.runNext])).toOption.map fun s => s.ran) =
      some [1, 2] := by
    decide +kernel
  have hall := h _ hlegal fs [.runNext]
  rw [Machine.run_append] at hafter
  cases hs : machine.run initial fs with
  | error f => simp [hs, Except.toOption] at hbefore
  | ok s =>
    simp only [hs, Except.toOption, Option.map_some, Option.some.injEq, Prod.mk.injEq] at hbefore
    rw [hs, ok_bind] at hafter
    cases hs' : machine.run s [.runNext] with
    | error f => simp [hs', Except.toOption] at hafter
    | ok s' =>
      simp only [hs', Except.toOption, Option.map_some, Option.some.injEq] at hafter
      have hcount := hall s s' rfl hs hs' ⟨32, 2⟩ (by simp [hbefore.1])
      rw [hbefore.2, hafter] at hcount
      exact absurd hcount (by decide)

end TimerRun

end Muduo.Net
