import Muduo.Base.LoggedBytes

namespace Muduo.Base
open Muduo.Lib Muduo.Net

/-- The logger, what its log file has flushed, and the state in which `stop()` was called. -/
structure Stopping where
  log : AsyncLogging
  flushed : Bytes
  called : Option AsyncLogging

namespace Stopping
open AsyncLogging

def initial : Stopping where
  log := AsyncLogging.initial
  flushed := []
  called := none

/-- The calls of `output.flush()`, at the end of a cycle and behind the loop. -/
def flushes (before after : Backend) : Bool :=
  match before, after with
  | .writing _, .top => true
  | .top, .done => true
  | _, _ => false

/-- A `Thread` is joined once. -/
def enabled (s : Stopping) : Event → Prop
  | .stop => AsyncLogging.enabled s.log .stop ∧ s.called = none
  | e => AsyncLogging.enabled s.log e

def step (s : Stopping) (e : Event) : Except Fault Stopping := do
  let log ← AsyncLogging.step s.log e
  .ok {
    log := log
    flushed := if flushes s.log.backend log.backend then log.output else s.flushed
    called := match e with
      | .stop => some s.log
      | _ => s.called }

def machine : Machine Stopping Event Fault where
  enabled := enabled
  step := step

/-- `thread_.join()` has returned. -/
def Returned (s : Stopping) : Prop := s.called.isSome ∧ s.log.backend = .done

/-- When `stop()` returns, the lines appended before the call are in the log file, and flushed. -/
def KeepsLines (s : Stopping) : Prop :=
  Returned s → ∀ a, s.called = some a → a.appended.flatten <+: s.flushed

/-- The backend has tested `running_` and has yet to swap the buffers. -/
def BeforeSwap (a : AsyncLogging) : Prop := a.backend = .collecting ∨ a.backend = .waiting

/-- What no swap has collected. -/
def uncollected (a : AsyncLogging) : Bytes := contents a.buffers ++ a.currentBuffer.getD []

/-- What the swaps have collected. -/
def collected (a : AsyncLogging) : Bytes := a.output ++ contents a.unwritten

variable {a b : AsyncLogging} {logline : Bytes}

theorem appended_split (ha : Circulating a) :
    a.appended.flatten = collected a ++ uncollected a := by
  rw [ha.stream, collected, uncollected, List.append_assoc, List.append_assoc]

/-- A step that leaves the front end alone collects nothing. -/
theorem collected_eq (ha : Circulating a) (hb : Circulating b) (happ : b.appended = a.appended)
    (hun : uncollected b = uncollected a) : collected b = collected a := by
  have h := appended_split hb
  rw [happ, hun, appended_split ha, List.append_cancel_right_eq] at h
  exact h.symm

theorem append_frame (h : a.append logline = .ok b) : b.backend = a.backend ∧
    b.running = a.running ∧ b.output = a.output ∧ b.buffersToWrite = a.buffersToWrite ∧
    b.appended = a.appended ++ [logline] := by
  unfold AsyncLogging.append at h
  obtain ⟨current, -, h⟩ := bind_ok h
  split at h
  · cases h
    exact ⟨rfl, rfl, rfl, rfl, rfl⟩
  · obtain ⟨next, -, h⟩ := bind_ok h
    cases h
    dsimp only
    split <;> exact ⟨rfl, rfl, rfl, rfl, rfl⟩

theorem append_collected (h : a.append logline = .ok b) : collected b = collected a := by
  obtain ⟨hb, -, ho, hw, -⟩ := append_frame h
  simp only [collected, unwritten, hb, ho, hw]

/-- What the steps of a stopped backend leave as it is. -/
structure Frame (a b : AsyncLogging) : Prop where
  running : b.running = a.running
  appended : b.appended = a.appended

theorem collect_frame {now : Bytes} (h : a.collect now = .ok b) : Frame a b ∧
    b.backend = .writing 0 ∧ b.buffers = a.buffersToWrite ∧ b.currentBuffer = a.newBuffer1 := by
  unfold AsyncLogging.collect at h
  obtain ⟨-, -, h⟩ := bind_ok h
  cases h
  dsimp only
  split <;> split <;> exact ⟨⟨rfl, rfl⟩, rfl, rfl, rfl⟩

theorem writeNext_frame {i : Nat} (h : a.writeNext i = .ok b) : Frame a b ∧
    (b.backend = .writing (i + 1) ∨ b.backend = .top) ∧ b.buffers = a.buffers ∧
    b.currentBuffer = a.currentBuffer := by
  unfold AsyncLogging.writeNext at h
  split at h
  · obtain ⟨buffer, -, h⟩ := bind_ok h
    cases h
    exact ⟨⟨rfl, rfl⟩, .inl rfl, rfl, rfl⟩
  · unfold AsyncLogging.endCycle at h
    obtain ⟨first, -, h⟩ := bind_ok h
    obtain ⟨second, -, h⟩ := bind_ok h
    cases h
    exact ⟨⟨rfl, rfl⟩, .inr rfl, rfl, rfl⟩

/-- The backend is inside its thread function. -/
def Entered (a : AsyncLogging) : Prop := a.backend ≠ .absent ∧ a.backend ≠ .starting

/-- With `running_` cleared the backend swaps the buffers once more if it has yet to swap them
in this cycle, and never otherwise. -/
theorem stopped_backend {now : Bytes} (ha : Circulating a) (hr : a.running = false)
    (hin : Entered a) (h : AsyncLogging.step a (.backend now) = .ok b) :
    Frame a b ∧ Entered b ∧ (uncollected b = uncollected a ∧ (BeforeSwap b ↔ BeforeSwap a) ∨
      BeforeSwap a ∧ uncollected b = []) := by
  have hheld := ha.held
  have hswap : BeforeSwap a → a.collect now = .ok b → Frame a b ∧ Entered b ∧
      (uncollected b = uncollected a ∧ (BeforeSwap b ↔ BeforeSwap a) ∨
        BeforeSwap a ∧ uncollected b = []) := by
    intro hbefore hc
    obtain ⟨hframe, hbb, hbuf, hcur⟩ := collect_frame hc
    have hempty : a.newBuffer1 = some [] ∧ a.buffersToWrite = [] := by
      cases hbefore with
      | inl hb => simp only [Held, hb] at hheld; exact ⟨hheld.1, hheld.2.2⟩
      | inr hb => simp only [Held, hb] at hheld; exact ⟨hheld.1, hheld.2.2⟩
    refine ⟨hframe, by simp [Entered, hbb], .inr ⟨hbefore, ?_⟩⟩
    simp only [uncollected, hbuf, hcur, hempty.1, hempty.2]
    rfl
  cases hb : a.backend with
  | absent => exact absurd hb hin.1
  | starting => exact absurd hb hin.2
  | top =>
    simp only [AsyncLogging.step, hb, AsyncLogging.beginCycle, hr, Bool.false_eq_true,
      if_false] at h
    cases h
    exact ⟨⟨hr.symm, rfl⟩, ⟨by simp, by simp⟩, .inl ⟨rfl, by simp [BeforeSwap, hb]⟩⟩
  | collecting =>
    simp only [AsyncLogging.step, hb, lock] at h
    split at h
    · cases h
      exact ⟨⟨rfl, rfl⟩, ⟨by simp, by simp⟩, .inl ⟨rfl, by simp [BeforeSwap, hb]⟩⟩
    · exact hswap (.inl hb) h
  | waiting =>
    simp only [AsyncLogging.step, hb] at h
    exact hswap (.inr hb) h
  | writing i =>
    simp only [AsyncLogging.step, hb] at h
    obtain ⟨hframe, hbb, hbuf, hcur⟩ := writeNext_frame h
    refine ⟨hframe, ?_, .inl ⟨by rw [uncollected, hbuf, hcur, uncollected], ?_⟩⟩
    · cases hbb with
      | inl hbb => simp [Entered, hbb]
      | inr hbb => simp [Entered, hbb]
    · cases hbb with
      | inl hbb => simp [BeforeSwap, hb, hbb]
      | inr hbb => simp [BeforeSwap, hb, hbb]
  | done =>
    simp only [AsyncLogging.step, hb] at h
    cases h
    exact ⟨⟨rfl, rfl⟩, hin, .inl ⟨rfl, Iff.rfl⟩⟩

/-- What has become of the lines that had been appended when `stop()` was called in `a`. -/
structure Called (a b : AsyncLogging) : Prop where
  running : b.running = false
  entered : Entered b
  appended : a.appended.flatten <+: b.appended.flatten
  swap : BeforeSwap a → BeforeSwap b ∨ a.appended.flatten <+: collected b
  late : ¬BeforeSwap a → ¬BeforeSwap b ∧ collected b = collected a

theorem called_stop (ha : Entered a) : Called a a.stop where
  running := rfl
  entered := ha
  appended := List.prefix_rfl
  swap h := .inl h
  late h := ⟨h, rfl⟩

theorem Called.append {c : AsyncLogging} (h : Called a b) (hc : b.append logline = .ok c) :
    Called a c := by
  obtain ⟨hbackend, hrunning, -, -, happ⟩ := append_frame hc
  have hcollected := append_collected hc
  refine ⟨hrunning.trans h.running, ?_, ?_, fun hs => ?_, fun hs => ?_⟩
  · rw [Entered, hbackend]
    exact h.entered
  · rw [happ, List.flatten_append]
    exact h.appended.trans (List.prefix_append _ _)
  · rw [BeforeSwap, hbackend, hcollected]
    exact h.swap hs
  · rw [BeforeSwap, hbackend, hcollected]
    exact h.late hs

theorem Called.backend {c : AsyncLogging} {now : Bytes} (h : Called a b) (hb : Circulating b)
    (hcc : Circulating c) (hc : AsyncLogging.step b (.backend now) = .ok c) : Called a c := by
  obtain ⟨hframe, hentered, hcases⟩ := stopped_backend hb h.running h.entered hc
  have happ : a.appended.flatten <+: c.appended.flatten := by
    rw [hframe.appended]
    exact h.appended
  have hrunning : c.running = false := hframe.running.trans h.running
  cases hcases with
  | inl hsame =>
    obtain ⟨hun, hbefore⟩ := hsame
    have hcollected := collected_eq hb hcc hframe.appended hun
    refine ⟨hrunning, hentered, happ, fun hs => ?_, fun hs => ?_⟩
    · rw [hbefore, hcollected]
      exact h.swap hs
    · rw [hbefore, hcollected]
      exact h.late hs
  | inr hswap =>
    obtain ⟨hbefore, hun⟩ := hswap
    refine ⟨hrunning, hentered, happ, fun _ => .inr ?_, fun hs => ?_⟩
    · have hall := appended_split hcc
      rw [hun, List.append_nil] at hall
      rw [← hall]
      exact happ
    · exact absurd hbefore (h.late hs).1

structure Traced (s : Stopping) : Prop where
  circulating : Circulating s.log
  flushed : s.log.backend = .done → s.flushed = s.log.output
  called : ∀ a, s.called = some a → Circulating a ∧ Called a s.log

theorem initial_traced : Traced initial where
  circulating := initial_circulating
  flushed := nofun
  called := nofun

/-- The premises on a step. -/
def InBounds (s : Stopping) (e : Event) : Prop := AsyncLogging.InBounds s.log e

variable {s : Stopping}

/-- The thread ends with a flush. -/
theorem done_flushes {now : Bytes} {log : AsyncLogging}
    (hb : s.log.backend ≠ .done) (h : AsyncLogging.step s.log (.backend now) = .ok log)
    (hd : log.backend = .done) : flushes s.log.backend log.backend = true := by
  cases hs : s.log.backend with
  | absent =>
    simp only [AsyncLogging.step, hs] at h
    cases h
    exact absurd (hs.symm.trans hd) (by simp)
  | starting =>
    simp only [AsyncLogging.step, hs, enterThread] at h
    obtain ⟨-, -, h⟩ := bind_ok h
    cases h
    cases hd
  | top => rw [hd]; rfl
  | collecting =>
    simp only [AsyncLogging.step, hs, lock] at h
    split at h
    · cases h
      cases hd
    · exact absurd ((collect_frame h).2.1.symm.trans hd) (by simp)
  | waiting =>
    simp only [AsyncLogging.step, hs] at h
    exact absurd ((collect_frame h).2.1.symm.trans hd) (by simp)
  | writing i =>
    simp only [AsyncLogging.step, hs] at h
    cases (writeNext_frame h).2.1 with
    | inl hw => exact absurd (hw.symm.trans hd) (by simp)
    | inr hw => exact absurd (hw.symm.trans hd) (by simp)
  | done => exact absurd hs hb

theorem Traced.step (hs : Traced s) {e : Event} (he : machine.enabled s e) (hin : InBounds s e) :
    ∃ t, machine.step s e = .ok t ∧ Traced t := by
  cases e with
  | append logline =>
    obtain ⟨log, hlog, hcirc⟩ := hs.circulating.append hin
    obtain ⟨hbackend, -, houtput, -⟩ := append_frame hlog
    have hkept : flushes s.log.backend log.backend = false := by
      rw [hbackend]
      cases s.log.backend <;> rfl
    refine ⟨⟨log, s.flushed, s.called⟩, ?_, hcirc, fun hd => ?_, fun a ha => ?_⟩
    · simp only [machine, Stopping.step, AsyncLogging.step, hlog, ok_bind, hkept]
      rfl
    · rw [houtput]
      exact hs.flushed (hbackend.symm.trans hd)
    · exact ⟨(hs.called a ha).1, (hs.called a ha).2.append hlog⟩
  | start =>
    have hb : s.log.backend = .absent := he
    have henabled : AsyncLogging.machine.enabled s.log .start := he
    obtain ⟨log, hlog, hcirc⟩ := hs.circulating.step henabled trivial
    cases hlog
    refine ⟨⟨s.log.start, s.flushed, s.called⟩, ?_, hcirc, (fun hd => by cases hd), fun a ha => ?_⟩
    · simp only [machine, Stopping.step, AsyncLogging.step, ok_bind, hb]
      rfl
    · exact absurd hb (hs.called a ha).2.entered.1
  | stop =>
    have henabled : AsyncLogging.machine.enabled s.log .stop := he.1
    obtain ⟨log, hlog, hcirc⟩ := hs.circulating.step henabled trivial
    cases hlog
    have hkept : flushes s.log.backend s.log.stop.backend = false := by
      change flushes s.log.backend s.log.backend = false
      cases s.log.backend <;> rfl
    refine ⟨⟨s.log.stop, s.flushed, some s.log⟩, ?_, hcirc, hs.flushed, fun a ha => ?_⟩
    · simp only [machine, Stopping.step, AsyncLogging.step, ok_bind, hkept]
      rfl
    · cases ha
      exact ⟨hs.circulating, called_stop henabled⟩
  | backend now =>
    have hnotdone : s.log.backend ≠ .done := he.2
    have henabled : AsyncLogging.machine.enabled s.log (.backend now) := he
    obtain ⟨log, hlog, hcirc⟩ := hs.circulating.step henabled hin
    refine ⟨⟨log, if flushes s.log.backend log.backend then log.output else s.flushed, s.called⟩,
      ?_, hcirc, fun hd => ?_, fun a ha => ?_⟩
    · have hstep : AsyncLogging.step s.log (.backend now) = .ok log := hlog
      simp only [machine, Stopping.step, hstep, ok_bind]
    · exact if_pos (done_flushes hnotdone hlog hd)
    · exact ⟨(hs.called a ha).1, (hs.called a ha).2.backend hs.circulating hcirc hlog⟩

/-- Once the thread is done, what it has collected is in the log file. -/
theorem Traced.collected_done (hs : Traced s) (hd : s.log.backend = .done) :
    s.flushed = collected s.log := by
  have hheld := hs.circulating.held
  simp only [Held, hd] at hheld
  simp only [hs.flushed hd, collected, unwritten, hd, hheld, contents_nil, List.append_nil]

/-- The lines appended before `stop()` are in the log file when it returns exactly when it is
called between a test of `running_` and the swap behind it, or with nothing left to
collect. -/
theorem stop_keeps_lines_iff {es : List Event} (hl : machine.Legal InBounds initial es)
    {t : Stopping} (hr : machine.run initial es = .ok t) (hret : Returned t) :
    KeepsLines t ↔ ∀ a, t.called = some a → BeforeSwap a ∨ uncollected a = [] := by
  have htraced : Traced t := by
    have hrun : Yields Traced (fun _ => False) (machine.run initial es) := by
      refine Machine.run_keeps (fun s e hs he hin => ?_) initial_traced hl
      obtain ⟨s', hstep, hs'⟩ := hs.step he hin
      rw [hstep]
      exact hs'
    exact hrun.of_ok hr
  have hflushed := htraced.collected_done hret.2
  constructor
  · intro h a ha
    by_cases hbefore : BeforeSwap a
    · exact .inl hbefore
    · obtain ⟨hcirc, hcalled⟩ := htraced.called a ha
      have hkept := h hret a ha
      rw [hflushed, (hcalled.late hbefore).2, appended_split hcirc] at hkept
      have hlen := hkept.length_le
      rw [List.length_append] at hlen
      exact .inr (List.length_eq_zero_iff.mp (by omega))
  · intro h _ a ha
    obtain ⟨hcirc, hcalled⟩ := htraced.called a ha
    rw [hflushed]
    by_cases hbefore : BeforeSwap a
    · cases hcalled.swap hbefore with
      | inl hb => cases hb with
        | inl hb => exact absurd (hb.symm.trans hret.2) nofun
        | inr hb => exact absurd (hb.symm.trans hret.2) nofun
      | inr hprefix => exact hprefix
    · have hun := (h a ha).resolve_left hbefore
      rw [(hcalled.late hbefore).2, appended_split hcirc, hun]
      exact (List.append_nil _).symm ▸ List.prefix_rfl

instance (s : Stopping) : ∀ e, Decidable (machine.enabled s e)
  | .append _ => isTrue trivial
  | .start => inferInstanceAs (Decidable (s.log.backend = .absent))
  | .stop => inferInstanceAs (Decidable
    ((s.log.backend ≠ .absent ∧ s.log.backend ≠ .starting) ∧ s.called = none))
  | .backend _ => inferInstanceAs (Decidable (s.log.backend ≠ .absent ∧ s.log.backend ≠ .done))

instance (s : Stopping) (e : Event) : Decidable (InBounds s e) :=
  inferInstanceAs (Decidable (AsyncLogging.InBounds s.log e))

/-- The backend waits for lines when it is stopped. -/
def sampleRun : List Event :=
  [.start, .backend [], .backend [], .backend [], .append [1, 2], .stop, .append [3], .backend [],
    .backend [], .backend [], .backend []]

/-- The state in which the sample run stops the logger. -/
def sampleStopped : AsyncLogging where
  running := true
  currentBuffer := some [1, 2]
  nextBuffer := some []
  buffers := []
  backend := .waiting
  newBuffer1 := some []
  newBuffer2 := some []
  buffersToWrite := []
  output := []
  appended := [[1, 2]]

/-- The state in which the sample run ends. -/
def sampleReturned : Stopping where
  log := {
    running := false
    currentBuffer := some []
    nextBuffer := some []
    buffers := []
    backend := .done
    newBuffer1 := some []
    newBuffer2 := some []
    buffersToWrite := []
    output := [1, 2, 3]
    appended := [[1, 2], [3]] }
  flushed := [1, 2, 3]
  called := some sampleStopped

theorem stop_keeps_lines_iff_sample : KeepsLines sampleReturned ↔
    ∀ a, sampleReturned.called = some a → BeforeSwap a ∨ uncollected a = [] :=
  stop_keeps_lines_iff (by decide +kernel : machine.Legal InBounds initial sampleRun)
    (by rfl) ⟨rfl, rfl⟩

/-- The thread finds `running_` cleared before it has collected anything. -/
theorem stopped_line_lost : ¬∀ (es : List Event) (t : Stopping),
    machine.Legal InBounds initial es → machine.run initial es = .ok t → KeepsLines t := by
  intro h
  have hkept := h [.start, .backend [], .append [1], .stop, .backend []] _ (by decide +kernel) rfl
  exact absurd (hkept ⟨rfl, rfl⟩ _ rfl) (by decide +kernel)

end Stopping

end Muduo.Base
