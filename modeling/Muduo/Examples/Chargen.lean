import Muduo.Examples.TimingWheel

namespace Muduo.Examples
open Muduo.Lib Muduo.Net

/-- One server for all connections, so `msgTranffered_` is theirs together. The history is what
each connection was sent, and which ones the server shut down. -/
structure ChargenServer (C : Type) where
  message_ : List Bytes
  msgTranffered_ : Nat
  phase : C → Phase
  sent : C → List Bytes
  shutdowns : List C

namespace ChargenServer

def CHAR_LEN : Nat := 40
def LINE_LEN : Nat := 50
def START_CHAR : Nat := 35

def fillMsg : List Bytes :=
  (List.range LINE_LEN).map fun i =>
    (List.range CHAR_LEN).map fun j => UInt8.ofNat (START_CHAR + i + j)

def new (C : Type) : ChargenServer C where
  message_ := fillMsg
  msgTranffered_ := 0
  phase _ := .unborn
  sent _ := []
  shutdowns := []

inductive Event (C : Type)
  | up (conn : C)
  | writeComplete (conn : C)
  | down (conn : C)
  deriving DecidableEq

variable {C : Type}

section

variable [DecidableEq C] (s : ChargenServer C) (conn : C)

/-- `conn->send`, which drops what is sent on a connection that is not up. -/
def send (line : Bytes) : ChargenServer C :=
  if s.phase conn = .connected then
    { s with sent := Function.update s.sent conn (s.sent conn ++ [line]) }
  else s

/-- `conn->send(message_[msgTranffered_++] + "\r\n")`. -/
def sendNext : Except Fault (ChargenServer C) :=
  match s.message_[s.msgTranffered_]? with
  | none => .error .outOfBounds
  | some line =>
    .ok (({ s with msgTranffered_ := s.msgTranffered_ + 1 }).send conn (line ++ ascii "\r\n"))

def onConnectionUp : Except Fault (ChargenServer C) :=
  ({ s with phase := Function.update s.phase conn .connected }).sendNext conn

def onConnectionDown : ChargenServer C :=
  { s with phase := Function.update s.phase conn .closed }

/-- `conn->shutdown()`. -/
def shutdown : ChargenServer C :=
  if s.phase conn = .connected then
    { s with
      phase := Function.update s.phase conn .disconnecting
      shutdowns := s.shutdowns ++ [conn] }
  else s

def onWriteComplete : Except Fault (ChargenServer C) :=
  if s.msgTranffered_ = LINE_LEN then .ok (s.shutdown conn) else s.sendNext conn

/-- A write-complete callback that was queued may run after the connection has gone down. -/
def enabled : Event C → Prop
  | .up conn => s.phase conn = .unborn
  | .writeComplete conn => s.phase conn ≠ .unborn
  | .down conn => s.phase conn = .connected ∨ s.phase conn = .disconnecting

def step : Event C → Except Fault (ChargenServer C)
  | .up conn => s.onConnectionUp conn
  | .writeComplete conn => s.onWriteComplete conn
  | .down conn => .ok (s.onConnectionDown conn)

def machine (C : Type) [DecidableEq C] : Machine (ChargenServer C) (Event C) Fault where
  enabled := enabled
  step := step

instance (s : ChargenServer C) : ∀ e, Decidable ((machine C).enabled s e)
  | .up conn => inferInstanceAs (Decidable (s.phase conn = .unborn))
  | .writeComplete conn => inferInstanceAs (Decidable (s.phase conn ≠ .unborn))
  | .down conn =>
    inferInstanceAs (Decidable (s.phase conn = .connected ∨ s.phase conn = .disconnecting))

end

/-- Every line, as it is sent. -/
def lines : List Bytes := fillMsg.map (· ++ ascii "\r\n")

theorem lines_length : lines.length = LINE_LEN := by
  simp [lines, fillMsg]

section

variable (s : ChargenServer C)

/-- The counter stays within the table, and whoever is shut down has been sent all of it. -/
structure Good : Prop where
  bound : s.msgTranffered_ ≤ LINE_LEN
  complete : ∀ c ∈ s.shutdowns, s.sent c = lines

/-- A connection comes up before the table is finished, and one that is about to be shut down
is the only one there has been. -/
def Fits : Event C → Prop
  | .up _ => s.msgTranffered_ < LINE_LEN
  | .writeComplete conn => s.msgTranffered_ = LINE_LEN → s.phase conn = .connected →
      ∀ d, d ≠ conn → s.phase d = .unborn
  | .down _ => True

structure Sound : Prop where
  table : s.message_ = fillMsg
  bound : s.msgTranffered_ ≤ LINE_LEN
  unborn : ∀ c, s.phase c = .unborn → s.sent c = []
  born : ∀ c, s.phase c ≠ .unborn → s.sent c ≠ []
  apart : ∀ c d, c ≠ d → (s.sent c).length + (s.sent d).length ≤ s.msgTranffered_
  alone : ∀ c, (∀ d, d ≠ c → s.phase d = .unborn) → s.phase c ≠ .closed →
    s.sent c = lines.take s.msgTranffered_
  finished : ∀ c, s.phase c = .disconnecting → s.msgTranffered_ = LINE_LEN
  complete : ∀ c ∈ s.shutdowns, s.sent c = lines
  shut : ∀ c ∈ s.shutdowns, s.phase c = .disconnecting ∨ s.phase c = .closed

end

variable {s : ChargenServer C} {conn : C}

theorem Sound.good (h : s.Sound) : s.Good := ⟨h.bound, h.complete⟩

theorem new_sound : (new C).Sound where
  table := rfl
  bound := Nat.zero_le _
  unborn _ _ := rfl
  born _ h := absurd rfl h
  apart _ _ _ := Nat.le_refl 0
  alone _ _ _ := rfl
  finished _ h := nomatch h
  complete _ h := absurd h List.not_mem_nil
  shut _ h := absurd h List.not_mem_nil

/-- The line that is next in the table. -/
theorem Sound.next (h : s.Sound) (hlt : s.msgTranffered_ < LINE_LEN) :
    ∃ line, s.message_[s.msgTranffered_]? = some line ∧
      lines.take (s.msgTranffered_ + 1) =
        lines.take s.msgTranffered_ ++ [line ++ ascii "\r\n"] := by
  have hlen : s.msgTranffered_ < fillMsg.length := by
    rw [← lines_length, lines, List.length_map] at hlt
    exact hlt
  refine ⟨fillMsg[s.msgTranffered_], ?_, ?_⟩
  · rw [h.table]
    exact List.getElem?_eq_getElem hlen
  · rw [List.take_add_one]
    simp [lines, hlen]

/-- A line for a connection that has gone down is lost. -/
theorem Sound.skips (h : s.Sound) (hlt : s.msgTranffered_ < LINE_LEN)
    (hclosed : s.phase conn = .closed) :
    Sound { s with msgTranffered_ := s.msgTranffered_ + 1 } where
  table := h.table
  bound := hlt
  unborn := h.unborn
  born := h.born
  apart c d hne := Nat.le_succ_of_le (h.apart c d hne)
  alone c hothers hopen := by
    have hne : conn ≠ c := fun heq => hopen (heq ▸ hclosed)
    have hunborn := hothers conn hne
    exact absurd (hclosed.symm.trans hunborn) nofun
  finished c hc := absurd (h.finished c hc) (Nat.ne_of_lt hlt)
  complete := h.complete
  shut := h.shut

section

variable [DecidableEq C] {phase : C → Phase} {p q : Phase} {c : C}

theorem phase_before (hp : p ≠ q) (hc : Function.update phase conn p c = q) :
    c ≠ conn ∧ phase c = q := by
  by_cases heq : c = conn
  · rw [heq, Function.update_self] at hc
    exact absurd hc hp
  · rw [Function.update_of_ne heq] at hc
    exact ⟨heq, hc⟩

theorem born_before (hborn : phase conn ≠ .unborn)
    (hc : Function.update phase conn p c ≠ .unborn) : phase c ≠ .unborn := by
  by_cases heq : c = conn
  · rwa [heq]
  · rwa [Function.update_of_ne heq] at hc

/-- If only one connection has come up, it is the one that has just changed its phase. -/
theorem alone_before (hp : p ≠ .unborn)
    (hothers : ∀ d, d ≠ c → Function.update phase conn p d = .unborn) :
    c = conn ∧ ∀ d, d ≠ c → phase d = .unborn := by
  refine ⟨?_, fun d hd => (phase_before hp (hothers d hd)).2⟩
  by_contra hne
  exact (phase_before hp (hothers conn (Ne.symm hne))).1 rfl

end

variable [DecidableEq C]

/-- The next line for a connection that is up, or comes up. -/
theorem Sound.sends {line : Bytes} (h : s.Sound) (hlt : s.msgTranffered_ < LINE_LEN)
    (hphase : s.phase conn = .unborn ∨ s.phase conn = .connected)
    (hline : lines.take (s.msgTranffered_ + 1) = lines.take s.msgTranffered_ ++ [line]) :
    Sound { s with
      msgTranffered_ := s.msgTranffered_ + 1
      phase := Function.update s.phase conn .connected
      sent := Function.update s.sent conn (s.sent conn ++ [line]) } := by
  have hover : ∀ c ∈ s.shutdowns, c ≠ conn := by
    intro c hc heq
    have hphase' := h.shut c hc
    rw [heq] at hphase'
    cases hphase with
    | inl hunborn => simp [hunborn] at hphase'
    | inr hup => simp [hup] at hphase'
  refine ⟨h.table, hlt, ?_, ?_, ?_, ?_, ?_, ?_, ?_⟩
  · intro c hc
    obtain ⟨hne, hunborn⟩ := phase_before (by simp) hc
    simp only [Function.update_of_ne hne]
    exact h.unborn c hunborn
  · intro c hc
    by_cases heq : c = conn
    · simp [heq]
    · simp only [Function.update_of_ne heq] at hc ⊢
      exact h.born c hc
  · intro c d hne
    have hapart := h.apart c d hne
    by_cases hc : c = conn
    · subst hc
      simp only [Function.update_self, Function.update_of_ne hne.symm, List.length_append,
        List.length_singleton]
      omega
    · by_cases hd : d = conn
      · subst hd
        simp only [Function.update_self, Function.update_of_ne hne, List.length_append,
          List.length_singleton]
        omega
      · simp only [Function.update_of_ne hc, Function.update_of_ne hd]
        omega
  · intro c hothers hopen
    obtain ⟨rfl, hbefore⟩ := alone_before (by simp) hothers
    have halone : s.sent c = lines.take s.msgTranffered_ := by
      apply h.alone c hbefore
      cases hphase with
      | inl hunborn => simp [hunborn]
      | inr hup => simp [hup]
    simp only [Function.update_self]
    rw [halone, hline]
  · intro c hc
    exact absurd (h.finished c (phase_before (by simp) hc).2) (Nat.ne_of_lt hlt)
  · intro c hc
    simp only [Function.update_of_ne (hover c hc)]
    exact h.complete c hc
  · intro c hc
    simp only [Function.update_of_ne (hover c hc)]
    exact h.shut c hc

theorem Sound.onConnectionUp (h : s.Sound) (hlt : s.msgTranffered_ < LINE_LEN)
    (hphase : s.phase conn = .unborn) :
    Yields Sound (fun _ => False) (s.onConnectionUp conn) := by
  obtain ⟨line, hget, hline⟩ := h.next hlt
  have hsends := h.sends hlt (Or.inl hphase) hline
  simpa [ChargenServer.onConnectionUp, sendNext, hget, send] using hsends

theorem Sound.sendNext (h : s.Sound) (hlt : s.msgTranffered_ < LINE_LEN)
    (hphase : s.phase conn ≠ .unborn) :
    Yields Sound (fun _ => False) (s.sendNext conn) := by
  obtain ⟨line, hget, hline⟩ := h.next hlt
  simp only [ChargenServer.sendNext, hget, yields_ok, send]
  cases hp : s.phase conn with
  | unborn => exact absurd hp hphase
  | connected =>
    have hsends := h.sends hlt (Or.inr hp) hline
    rw [← hp, Function.update_eq_self] at hsends
    simpa [hp] using hsends
  | disconnecting => exact absurd (h.finished conn hp) (Nat.ne_of_lt hlt)
  | closed =>
    simpa using h.skips hlt hp

theorem Sound.shutdown (h : s.Sound) (hfull : s.msgTranffered_ = LINE_LEN)
    (hothers : s.phase conn = .connected → ∀ d, d ≠ conn → s.phase d = .unborn) :
    (s.shutdown conn).Sound := by
  by_cases hup : s.phase conn = .connected
  · have hall : s.sent conn = lines := by
      have halone := h.alone conn (hothers hup) (by simp [hup])
      rw [halone, hfull, ← lines_length, List.take_length]
    rw [ChargenServer.shutdown, if_pos hup]
    refine ⟨h.table, h.bound, ?_, ?_, h.apart, ?_, ?_, ?_, ?_⟩
    · intro c hc
      exact h.unborn c (phase_before (by simp) hc).2
    · intro c hc
      exact h.born c (born_before (by simp [hup]) hc)
    · intro c hrest hopen
      obtain ⟨rfl, -⟩ := alone_before (by simp) hrest
      simp only
      rw [hall, hfull, ← lines_length, List.take_length]
    · intro c hc
      exact hfull
    · intro c hc
      rcases List.mem_append.mp hc with hc | hc
      · exact h.complete c hc
      · rw [List.mem_singleton.mp hc]
        exact hall
    · intro c hc
      by_cases heq : c = conn
      · simp [heq]
      · simp only [Function.update_of_ne heq]
        rcases List.mem_append.mp hc with hc | hc
        · exact h.shut c hc
        · exact absurd (List.mem_singleton.mp hc) heq
  · rw [ChargenServer.shutdown, if_neg hup]
    exact h

theorem Sound.onConnectionDown (h : s.Sound)
    (hphase : s.phase conn = .connected ∨ s.phase conn = .disconnecting) :
    (s.onConnectionDown conn).Sound := by
  have hborn : s.phase conn ≠ .unborn := by
    cases hphase with
    | inl hup => simp [hup]
    | inr hdown => simp [hdown]
  refine ⟨h.table, h.bound, ?_, ?_, h.apart, ?_, ?_, h.complete, ?_⟩
  · intro c hc
    exact h.unborn c (phase_before (by simp) hc).2
  · intro c hc
    exact h.born c (born_before hborn hc)
  · intro c hothers hopen
    obtain ⟨rfl, -⟩ := alone_before (by simp) hothers
    simp [ChargenServer.onConnectionDown] at hopen
  · intro c hc
    exact h.finished c (phase_before (by simp) hc).2
  · intro c hc
    by_cases heq : c = conn
    · simp [ChargenServer.onConnectionDown, heq]
    · simp only [ChargenServer.onConnectionDown, Function.update_of_ne heq]
      exact h.shut c hc

theorem Sound.step {e : Event C} (h : s.Sound) (he : (machine C).enabled s e) (hc : s.Fits e) :
    Yields Sound (fun _ => False) ((machine C).step s e) := by
  cases e with
  | up conn => exact h.onConnectionUp hc he
  | writeComplete conn =>
    change Yields Sound (fun _ => False) (s.onWriteComplete conn)
    unfold onWriteComplete
    by_cases hfull : s.msgTranffered_ = LINE_LEN
    · rw [if_pos hfull]
      exact h.shutdown hfull (hc hfull)
    · rw [if_neg hfull]
      exact h.sendNext (Nat.lt_of_le_of_ne h.bound hfull) he
  | down conn => exact h.onConnectionDown he

/-- Any other step reads behind the table, or shuts down a connection that lacks a line. -/
theorem Sound.step_fails {e : Event C} (h : s.Sound) (hc : ¬s.Fits e) :
    ¬Yields Good (fun _ => False) ((machine C).step s e) := by
  have hlen : s.message_.length = LINE_LEN := by
    rw [h.table, fillMsg, List.length_map, List.length_range]
  cases e with
  | up conn =>
    have hnone : s.message_[s.msgTranffered_]? = none :=
      List.getElem?_eq_none (hlen.trans_le (Nat.le_of_not_lt hc))
    change ¬Yields Good (fun _ => False) (s.onConnectionUp conn)
    simp [ChargenServer.onConnectionUp, ChargenServer.sendNext, hnone]
  | writeComplete conn =>
    simp only [Fits, not_forall] at hc
    obtain ⟨hfull, hup, d, hne, hborn⟩ := hc
    change ¬Yields Good (fun _ => False) (s.onWriteComplete conn)
    rw [onWriteComplete, if_pos hfull, ChargenServer.shutdown, if_pos hup]
    intro hgood
    have hall : s.sent conn = lines :=
      hgood.complete conn (List.mem_append_right _ List.mem_cons_self)
    have hapart := h.apart d conn hne
    have hpos := List.length_pos_iff.mpr (h.born d hborn)
    rw [hall, lines_length] at hapart
    omega
  | down conn => exact absurd trivial hc

/-- The runs that go well all the way are those in which every step fits. -/
theorem runs_good_iff {es : List (Event C)} (hl : (machine C).Legal (fun _ _ => True) (new C) es) :
    (machine C).Legal Fits (new C) es ↔
      ∀ fs, fs <+: es → Yields Good (fun _ => False) ((machine C).run (new C) fs) :=
  Machine.Legal.iff_good (fun _ _ hs he hc => hs.step he hc)
    (fun _ _ hs _ hc => hs.step_fails hc) (fun _ hs => hs.good) new_sound hl

theorem runs_good_sample :
    (machine Bool).Legal Fits (new Bool) [.up false, .writeComplete false, .down false] ↔
      ∀ fs, fs <+: [.up false, .writeComplete false, .down false] →
        Yields Good (fun _ => False) ((machine Bool).run (new Bool) fs) :=
  runs_good_iff (by decide)

/-- One connection takes the whole table, and then another comes up. -/
theorem second_connection : ∃ es, (machine Bool).Legal (fun _ _ => True) (new Bool) es ∧
    ¬Yields Good (fun _ => False) ((machine Bool).run (new Bool) es) := by
  refine ⟨.up false :: (List.replicate LINE_LEN (.writeComplete false) ++ [.up true]), ?_, ?_⟩
  · decide +kernel
  · intro h
    have hbad : Yields (fun _ => False) (· = Fault.outOfBounds) ((machine Bool).run (new Bool)
        (.up false :: (List.replicate LINE_LEN (.writeComplete false) ++ [.up true]))) := by
      decide +kernel
    cases hrun : (machine Bool).run (new Bool)
        (.up false :: (List.replicate LINE_LEN (.writeComplete false) ++ [.up true])) with
    | ok t =>
      rw [hrun] at hbad
      exact hbad
    | error f =>
      rw [hrun] at h
      exact h

end ChargenServer

end Muduo.Examples
