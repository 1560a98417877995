import Mathlib.Data.Nat.ModEq
import Muduo.Examples.TimingWheel

namespace Muduo.Examples
open Muduo.Lib Muduo.Net

namespace CircularIndex

/-- One step back is taken modulo `max`, as long as `size_t` does not get in the way. -/
theorem getDec_eq {i : CircularIndex} (hi : i.index < i.max)
    (hw : if i.index = 0 then i.max ∣ 2 ^ 64 else i.index - 1 + i.max < 2 ^ 64) :
    i.getDec = if i.index = 0 then i.max - 1 else i.index - 1 := by
  obtain ⟨i, n⟩ := i
  simp only at hi hw ⊢
  by_cases h0 : i = 0
  · subst h0
    obtain ⟨m, hm⟩ : n ∣ 2 ^ 64 := by simpa using hw
    have hmpos : 0 < m := by
      rcases Nat.eq_zero_or_pos m with rfl | h
      · simp at hm
      · exact h
    have hle : n ≤ 2 ^ 64 := Nat.le_of_dvd (by omega) ⟨m, hm⟩
    -- the word just below zero is `n - 1` modulo `n`
    have hmod : (2 ^ 64 - 1) % n = n - 1 := by
      have hsplit : 2 ^ 64 - 1 = n * (m - 1) + (n - 1) := by
        obtain ⟨m, rfl⟩ : ∃ k, m = k + 1 := ⟨m - 1, by omega⟩
        rw [hm, Nat.mul_succ, Nat.add_sub_cancel]
        omega
      rw [hsplit, Nat.mul_add_mod, Nat.mod_eq_of_lt (by omega)]
    have hsub : Word.sub 64 0 1 = 2 ^ 64 - 1 := Word.sub_of_gt 64 (by omega) (by omega)
    simp only [getDec, if_true, hsub, hmod]
    by_cases hn : n - 1 + n < 2 ^ 64
    · rw [Word.add_of_lt 64 hn, Nat.add_mod_right, Nat.mod_eq_of_lt (by omega)]
    · -- then `n` is the whole word
      have hone : m = 1 := by
        by_contra hne
        have : n * 2 ≤ n * m := Nat.mul_le_mul_left n (by omega)
        omega
      subst hone
      rw [Nat.mul_one] at hm
      subst hm
      unfold Word.add
      decide
  · rw [if_neg h0] at hw ⊢
    have hsub : Word.sub 64 i 1 = i - 1 := Word.sub_of_le 64 (by omega) (by omega)
    simp only [getDec, hsub, Nat.mod_eq_of_lt (show i - 1 < n by omega), Word.add_of_lt 64 hw,
      Nat.add_mod_right]

theorem dec_eq (i : CircularIndex) : i.dec = { i with index := i.getDec } := rfl

end CircularIndex

namespace DiscardServer

variable {C : Type} [DecidableEq C] {s : DiscardServer C} {conn : C} {n j k : Nat}

/-- The bucket that is current after `k` ticks. -/
def slot (n k : Nat) : Nat := n - 1 - k % n

theorem slot_lt (hn : 0 < n) : slot n k < n := by
  unfold slot
  omega

/-- The wheel turns back by one bucket at each tick. -/
theorem slot_succ (hn : 0 < n) :
    slot n (k + 1) = if slot n k = 0 then n - 1 else slot n k - 1 := by
  have hlt := Nat.mod_lt k hn
  have hmod : (k + 1) % n = (k % n + 1) % n := by
    conv_lhs => rw [← Nat.div_add_mod k n, Nat.add_assoc, Nat.mul_add_mod]
  unfold slot
  rw [hmod]
  by_cases h : k % n + 1 = n
  · rw [h, Nat.mod_self, if_pos (by omega), Nat.sub_zero]
  · rw [Nat.mod_eq_of_lt (by omega), if_neg (by omega)]
    omega

/-- Within one turn, only the bucket filled `n` ticks ago becomes current again. -/
theorem slot_eq_iff (hn : 0 < n) (hj : j < k) (hk : k ≤ j + n) :
    slot n j = slot n k ↔ j + n = k := by
  have hjlt := Nat.mod_lt j hn
  have hklt := Nat.mod_lt k hn
  constructor
  · intro h
    have hmod : j % n = k % n := by
      unfold slot at h
      omega
    obtain ⟨m, hm⟩ := (Nat.modEq_iff_dvd' (by omega)).mp (show j ≡ k [MOD n] from hmod)
    have hpos : 0 < m := by
      rcases Nat.eq_zero_or_pos m with rfl | h
      · omega
      · exact h
    have hle : n * 1 ≤ n * m := Nat.mul_le_mul_left n hpos
    omega
  · rintro rfl
    rw [slot, slot, Nat.add_mod_right]

/-- The index steps back as it should (its `size_t` arithmetic wraps at zero, and for absurdly
large wheels), and a message finds the last update of the server in the current bucket only if
its own entry is there. -/
def InTurn (s : DiscardServer C) : Event C → Prop
  | .tick =>
    if s.timeWheel.tail.index = 0 then s.timeWheel.tail.max ∣ 2 ^ 64
    else s.timeWheel.tail.index - 1 + s.timeWheel.tail.max < 2 ^ 64
  | .message conn => s.phase conn = .connected → s.lastUpdate = s.timeWheel.tail.index →
    (s.timeWheel.tail.index, conn) ∈ s.timeWheel.wheelMap
  | _ => True

/-- A wheel of `n` buckets shuts a connection down at the `n`-th tick after its last activity:
not before, and not later. -/
structure Timely (n : Nat) (s : DiscardServer C) : Prop where
  pending : ∀ c, s.phase c = .connected → s.ticks < s.lastActive c + n
  onTime : ∀ c tick, (c, tick) ∈ s.shutdowns → tick = s.lastActive c + n
  shut : ∀ c, s.phase c = .disconnecting → (c, s.lastActive c + n) ∈ s.shutdowns

/-- The invariant: a connected entry lies in the bucket of its last activity, and every bucket
holds only what was put there within the last turn. -/
structure Turning (n : Nat) (s : DiscardServer C) : Prop extends Timely n s where
  size : s.timeWheel.tail.max = n
  tail : s.timeWheel.tail.index = slot n s.ticks
  active : ∀ c, s.lastActive c ≤ s.ticks
  held : ∀ c, s.phase c = .connected → (slot n (s.lastActive c), c) ∈ s.timeWheel.wheelMap
  recent : ∀ i c, (i, c) ∈ s.timeWheel.wheelMap →
    ∃ j, i = slot n j ∧ j ≤ s.lastActive c ∧ s.ticks < j + n
  born : ∀ c tick, (c, tick) ∈ s.shutdowns → s.phase c ≠ .unborn ∧ s.phase c ≠ .connected

omit [DecidableEq C] in
theorem new_turning (hn : 0 < n) (hlt : n < 2 ^ 64) : Turning n (new C n) where
  pending c h := nomatch h
  onTime c tick h := nomatch h
  shut c h := nomatch h
  size := rfl
  tail := by
    change Word.sub 64 n 1 = n - 1 - 0 % n
    rw [Word.sub_of_le 64 (by omega) hlt, Nat.zero_mod, Nat.sub_zero]
  active c := Nat.le_refl _
  held c h := nomatch h
  recent i c h := nomatch h
  born c tick h := nomatch h

omit [DecidableEq C] in
theorem connected_iff : s.connected conn = true ↔ s.phase conn = .connected := by
  simp [connected]

theorem Turning.up (hs : Turning n s) (hn : 0 < n) (hc : s.phase conn = .unborn) :
    Turning n (s.onConnectionUp conn) := by
  have hadd : s.onConnectionUp conn = { s with
      phase := Function.update s.phase conn .connected
      lastActive := Function.update s.lastActive conn s.ticks
      timeWheel := s.timeWheel.insert s.timeWheel.tail.index conn } := by
    simp [onConnectionUp, connected, TimingWheel.add, CircularIndex.get]
  have hnew : ∀ c tick, (c, tick) ∈ s.shutdowns → c ≠ conn := by
    rintro c tick h rfl
    exact (hs.born c tick h).1 hc
  rw [hadd]
  refine ⟨⟨?_, ?_, ?_⟩, hs.size, hs.tail, ?_, ?_, ?_, ?_⟩
  · intro c h
    by_cases he : c = conn
    · subst he
      simp [hn]
    · simpa [he] using hs.pending c (by simpa [he] using h)
  · intro c tick h
    simpa [hnew c tick h] using hs.onTime c tick h
  · intro c h
    by_cases he : c = conn
    · subst he
      simp at h
    · simpa [he] using hs.shut c (by simpa [he] using h)
  · intro c
    by_cases he : c = conn
    · subst he
      simp
    · simpa [he] using hs.active c
  · intro c h
    by_cases he : c = conn
    · subst he
      simp [TimingWheel.insert, hs.tail]
    · simpa [TimingWheel.insert, he] using hs.held c (by simpa [he] using h)
  · intro i c h
    rcases List.mem_cons.mp h with h | h
    · cases h
      exact ⟨s.ticks, hs.tail, by simp, Nat.lt_add_of_pos_right hn⟩
    · obtain ⟨j, hj, hle, hlt⟩ := hs.recent i c h
      refine ⟨j, hj, ?_, hlt⟩
      by_cases he : c = conn
      · subst he
        simpa using hle.trans (hs.active c)
      · simpa [he] using hle
  · intro c tick h
    simpa [hnew c tick h] using hs.born c tick h

theorem Turning.down (hs : Turning n s) (conn : C) : Turning n (s.onConnectionDown conn) := by
  have hother : ∀ c p, p ≠ .closed → (s.onConnectionDown conn).phase c = p → s.phase c = p := by
    intro c p hp h
    by_cases he : c = conn
    · subst he
      simp only [onConnectionDown, Function.update_self] at h
      exact absurd h.symm hp
    · simpa [onConnectionDown, he] using h
  refine ⟨⟨fun c h => hs.pending c (hother c _ (by simp) h), hs.onTime,
    fun c h => hs.shut c (hother c _ (by simp) h)⟩, hs.size, hs.tail, hs.active,
    fun c h => hs.held c (hother c _ (by simp) h), hs.recent, fun c tick h => ?_⟩
  obtain ⟨hu, hc⟩ := hs.born c tick h
  exact ⟨fun h => hu (hother c _ (by simp) h), fun h => hc (hother c _ (by simp) h)⟩

/-- With or without an insertion, the entry is in the current bucket afterwards. -/
theorem Turning.onMessage_moves (hs : Turning n s) (hin : InTurn s (.message conn))
    (hc : s.phase conn = .connected) : ∃ map, s.onMessage conn = { s with
      lastUpdate := s.timeWheel.tail.index
      timeWheel := { s.timeWheel with wheelMap := map }
      lastActive := Function.update s.lastActive conn s.ticks } ∧
    (s.timeWheel.tail.index, conn) ∈ map ∧
    ∀ x, x ∈ map ↔ x = (s.timeWheel.tail.index, conn) ∨ x ∈ s.timeWheel.wheelMap := by
  have hconn := connected_iff.mpr hc
  have halive : s.timeWheel.alive conn = true := by
    rw [TimingWheel.alive, List.any_eq_true]
    exact ⟨_, hs.held conn hc, by simp⟩
  by_cases hl : s.lastUpdate = s.timeWheel.tail.index
  · have hin' := hin hc hl
    refine ⟨s.timeWheel.wheelMap, ?_, hin', fun x => ⟨.inr, ?_⟩⟩
    · simp [onMessage, hconn, TimingWheel.update, CircularIndex.get, hl]
    · rintro (rfl | h)
      · exact hin'
      · exact h
  · refine ⟨(s.timeWheel.tail.index, conn) :: s.timeWheel.wheelMap, ?_, List.mem_cons_self,
      fun x => List.mem_cons⟩
    simp [onMessage, hconn, TimingWheel.update, CircularIndex.get, hl, halive, TimingWheel.insert]

/-- A message moves the entry of a connected connection to the current bucket. -/
theorem Turning.message (hs : Turning n s) (hn : 0 < n) (hin : InTurn s (.message conn)) :
    Turning n (s.onMessage conn) := by
  by_cases hc : s.phase conn = .connected
  · obtain ⟨map, hmap, hmem, hsub⟩ := hs.onMessage_moves hin hc
    have hother : ∀ c tick, (c, tick) ∈ s.shutdowns → c ≠ conn := by
      rintro c tick h rfl
      exact (hs.born c tick h).2 hc
    rw [hmap]
    refine ⟨⟨?_, ?_, ?_⟩, hs.size, hs.tail, ?_, ?_, ?_, hs.born⟩
    · intro c h
      by_cases he : c = conn
      · subst he
        simp [hn]
      · simpa [he] using hs.pending c h
    · intro c tick h
      simpa [hother c tick h] using hs.onTime c tick h
    · intro c h
      have he : c ≠ conn := by
        rintro rfl
        rw [hc] at h
        exact nomatch h
      simpa [he] using hs.shut c h
    · intro c
      by_cases he : c = conn
      · subst he
        simp
      · simpa [he] using hs.active c
    · intro c h
      by_cases he : c = conn
      · subst he
        simpa [← hs.tail] using hmem
      · simpa [he] using (hsub _).mpr (.inr (hs.held c h))
    · intro i c h
      rcases (hsub _).mp h with h | h
      · cases h
        exact ⟨s.ticks, hs.tail, by simp, Nat.lt_add_of_pos_right hn⟩
      · obtain ⟨j, hj, hle, hlt⟩ := hs.recent i c h
        refine ⟨j, hj, ?_, hlt⟩
        by_cases he : c = conn
        · subst he
          simpa using hle.trans (hs.active c)
        · simpa [he] using hle
  · have hidle : s.onMessage conn = { s with lastUpdate := 0 } := by
      have hconn : s.connected conn = false := by simp [connected, hc]
      simp [onMessage, hconn, TimingWheel.update]
    rw [hidle]
    exact { hs with }

theorem shutdown_connected {tick : Nat} (hc : s.phase conn = .connected) :
    s.shutdown tick conn = { s with
      phase := Function.update s.phase conn .disconnecting
      shutdowns := s.shutdowns ++ [(conn, tick)] } :=
  if_pos (connected_iff.mpr hc)

theorem shutdown_idle {tick : Nat} (hc : s.phase conn ≠ .connected) :
    s.shutdown tick conn = s :=
  if_neg fun h => hc (connected_iff.mp h)

/-- What the destructors of several entries do together. -/
structure ShutDown (s s' : DiscardServer C) (tick : Nat) (cs : List C) : Prop where
  timeWheel : s'.timeWheel = s.timeWheel
  ticks : s'.ticks = s.ticks
  lastActive : s'.lastActive = s.lastActive
  phase : ∀ c, s'.phase c =
    if s.phase c = .connected ∧ c ∈ cs then .disconnecting else s.phase c
  shutdowns : ∀ c t, (c, t) ∈ s'.shutdowns ↔
    (c, t) ∈ s.shutdowns ∨ s.phase c = .connected ∧ c ∈ cs ∧ t = tick

theorem foldl_shutdown (s : DiscardServer C) (tick : Nat) (cs : List C) :
    ShutDown s (cs.foldl (shutdown tick) s) tick cs := by
  induction cs generalizing s with
  | nil => exact ⟨rfl, rfl, rfl, by simp, by simp⟩
  | cons a cs ih =>
    rw [List.foldl_cons]
    have h := ih (s.shutdown tick a)
    by_cases ha : s.phase a = .connected
    · rw [shutdown_connected ha] at h ⊢
      refine ⟨h.timeWheel, h.ticks, h.lastActive, fun c => ?_, fun c t => ?_⟩
      · rw [h.phase]
        by_cases hc : c = a
        · subst hc
          simp [ha]
        · simp [hc]
      · rw [h.shutdowns]
        by_cases hc : c = a
        · subst hc
          simp [ha]
        · simp [hc]
    · rw [shutdown_idle ha] at h ⊢
      refine ⟨h.timeWheel, h.ticks, h.lastActive, fun c => ?_, fun c t => ?_⟩
      · rw [h.phase]
        by_cases hc : c = a
        · subst hc
          simp [ha]
        · simp [hc]
      · rw [h.shutdowns]
        by_cases hc : c = a
        · subst hc
          simp [ha]
        · simp [hc]

/-- The entries destroyed at a tick are those of the erased bucket that lie in no other. -/
theorem mem_destroyed (w : TimingWheel C) (c : C) : c ∈ w.onTimer.2 ↔
    (w.tail.getDec, c) ∈ w.wheelMap ∧ ∀ i, (i, c) ∈ w.wheelMap → i = w.tail.getDec := by
  generalize hd : w.tail.getDec = d
  simp only [TimingWheel.onTimer, TimingWheel.alive, List.mem_filter, List.mem_map,
    decide_eq_true_eq, Bool.not_eq_true', List.any_eq_false, hd]
  constructor
  · rintro ⟨⟨⟨i, b⟩, ⟨hi, hid⟩, hb⟩, hnot⟩
    simp only at hid hb
    subst hid hb
    refine ⟨hi, fun j hj => ?_⟩
    by_contra hne
    exact hnot (j, b) ⟨hj, hne⟩ rfl
  · rintro ⟨hi, hall⟩
    refine ⟨⟨(d, c), ⟨hi, rfl⟩, rfl⟩, fun x hx hxc => ?_⟩
    obtain ⟨j, b⟩ := x
    simp only at hxc
    subst hxc
    exact hx.2 (hall j hx.1)

/-- A tick destroys the entry of a connected connection exactly when `n` ticks have passed. -/
theorem Turning.destroyed_iff (hs : Turning n s) (hn : 0 < n)
    (hdec : s.timeWheel.tail.getDec = slot n (s.ticks + 1)) (hc : s.phase conn = .connected) :
    conn ∈ s.timeWheel.onTimer.2 ↔ s.lastActive conn + n = s.ticks + 1 := by
  have hpending := hs.pending conn hc
  have hactive := hs.active conn
  have hslot := slot_eq_iff (k := s.ticks + 1) hn (Nat.lt_succ_of_le hactive) hpending
  rw [mem_destroyed, hdec]
  constructor
  · rintro ⟨-, hall⟩
    exact hslot.mp (hall _ (hs.held conn hc))
  · intro heq
    refine ⟨hslot.mpr heq ▸ hs.held conn hc, fun i hi => ?_⟩
    obtain ⟨j, rfl, hle, hlt⟩ := hs.recent i conn hi
    exact (slot_eq_iff hn (by omega) (by omega)).mpr (by omega)

theorem Turning.tick (hs : Turning n s) (hn : 0 < n) (hin : InTurn s .tick) :
    Turning n s.onTimer := by
  have hdec : s.timeWheel.tail.getDec = slot n (s.ticks + 1) := by
    have hlt : s.timeWheel.tail.index < s.timeWheel.tail.max := by
      rw [hs.tail, hs.size]
      exact slot_lt hn
    rw [CircularIndex.getDec_eq hlt hin, hs.tail, hs.size, slot_succ hn]
  have h : ShutDown { s with timeWheel := s.timeWheel.onTimer.1, ticks := s.ticks + 1 } s.onTimer
      (s.ticks + 1) s.timeWheel.onTimer.2 := foldl_shutdown _ _ _
  -- who is still connected was so before, and its entry was not destroyed
  have hkept : ∀ c, s.onTimer.phase c = .connected →
      s.phase c = .connected ∧ s.lastActive c + n ≠ s.ticks + 1 := by
    intro c hc
    rw [show s.onTimer.phase c = _ from h.phase c] at hc
    split at hc
    · exact nomatch hc
    · rename_i hnot
      exact ⟨hc, fun heq => hnot ⟨hc, (hs.destroyed_iff hn hdec hc).mpr heq⟩⟩
  have hmap : ∀ x, x ∈ s.timeWheel.onTimer.1.wheelMap ↔
      x ∈ s.timeWheel.wheelMap ∧ x.1 ≠ slot n (s.ticks + 1) := by
    intro x
    simp [TimingWheel.onTimer, hdec]
  have hlast : s.onTimer.lastActive = s.lastActive := h.lastActive
  have hticks : s.onTimer.ticks = s.ticks + 1 := h.ticks
  have hwheel : s.onTimer.timeWheel = s.timeWheel.onTimer.1 := h.timeWheel
  have hlog : ∀ c t, (c, t) ∈ s.onTimer.shutdowns ↔ (c, t) ∈ s.shutdowns ∨
      s.phase c = .connected ∧ c ∈ s.timeWheel.onTimer.2 ∧ t = s.ticks + 1 := h.shutdowns
  refine ⟨⟨fun c hc => ?_, fun c t hc => ?_, fun c hc => ?_⟩, ?_, ?_, fun c => ?_,
    fun c hc => ?_, fun i c hc => ?_, fun c t hc => ?_⟩
  · obtain ⟨hphase, hne⟩ := hkept c hc
    have := hs.pending c hphase
    rw [hlast, hticks]
    omega
  · rw [hlast]
    rcases (hlog c t).mp hc with hc | ⟨hphase, hmem, rfl⟩
    · exact hs.onTime c t hc
    · exact ((hs.destroyed_iff hn hdec hphase).mp hmem).symm
  · rw [show s.onTimer.phase c = _ from h.phase c] at hc
    rw [hlast, hlog]
    split at hc
    · rename_i hyes
      exact .inr ⟨hyes.1, hyes.2, (hs.destroyed_iff hn hdec hyes.1).mp hyes.2⟩
    · exact .inl (hs.shut c hc)
  · rw [hwheel, show s.timeWheel.onTimer.1.tail = s.timeWheel.tail.dec from rfl,
      CircularIndex.dec_eq]
    exact hs.size
  · rw [hwheel, hticks]
    exact hdec
  · rw [hlast, hticks]
    exact Nat.le_succ_of_le (hs.active c)
  · obtain ⟨hphase, hne⟩ := hkept c hc
    rw [hwheel, hlast, hmap]
    refine ⟨hs.held c hphase, fun heq => hne ?_⟩
    exact (slot_eq_iff hn (Nat.lt_succ_of_le (hs.active c)) (hs.pending c hphase)).mp heq
  · rw [hwheel, hmap] at hc
    obtain ⟨j, rfl, hle, hlt⟩ := hs.recent i c hc.1
    refine ⟨j, rfl, by rwa [hlast], ?_⟩
    have hactive := hs.active c
    have hne : j + n ≠ s.ticks + 1 := fun heq =>
      hc.2 ((slot_eq_iff hn (by omega) (by omega)).mpr heq)
    rw [hticks]
    omega
  · rw [show s.onTimer.phase c = _ from h.phase c]
    rcases (hlog c t).mp hc with hc | ⟨hphase, hmem, -⟩
    · obtain ⟨hu, hco⟩ := hs.born c t hc
      rw [if_neg fun h => hco h.1]
      exact ⟨hu, hco⟩
    · rw [if_pos ⟨hphase, hmem⟩]
      exact ⟨nofun, nofun⟩

/-- In a run whose steps are all in turn, every connection is shut down at the `n`-th tick
after its last activity. -/
theorem idle_timeout (hn : 0 < n) (hlt : n < 2 ^ 64) {es : List (Event C)}
    (hl : (machine C).Legal InTurn (new C n) es) :
    Yields (Timely n) (fun _ => False) ((machine C).run (new C n) es) := by
  have hturning : Yields (Turning n) (fun _ => False) ((machine C).run (new C n) es) := by
    refine Machine.run_keeps (fun s e hs he hin => ?_) (new_turning hn hlt) hl
    cases e with
    | up conn => exact hs.up hn he
    | message conn => exact hs.message hn hin
    | down conn => exact hs.down conn
    | tick => exact hs.tick hn hin
  exact hturning.mono fun s hs => hs.toTimely

instance (s : DiscardServer C) : ∀ e, Decidable (InTurn s e)
  | .tick => inferInstanceAs (Decidable
    (if s.timeWheel.tail.index = 0 then s.timeWheel.tail.max ∣ 2 ^ 64
      else s.timeWheel.tail.index - 1 + s.timeWheel.tail.max < 2 ^ 64))
  | .message conn => inferInstanceAs (Decidable (s.phase conn = .connected →
    s.lastUpdate = s.timeWheel.tail.index →
    (s.timeWheel.tail.index, conn) ∈ s.timeWheel.wheelMap))
  | .up _ => isTrue trivial
  | .down _ => isTrue trivial

/-- Two connections; the first stays active for two ticks of a wheel of four buckets, and both
are shut down in time. -/
def sampleRun : List (Event Bool) :=
  [.up true, .up false, .tick, .message true, .tick, .message true, .tick, .tick, .message true,
    .tick, .tick, .tick, .tick]

theorem idle_timeout_sample :
    Yields (Timely 4) (fun _ => False) ((machine Bool).run (new Bool 4) sampleRun) :=
  idle_timeout (by decide) (by decide) (by decide +kernel)

/-- The server's wheel of eight buckets: the second connection's message comes in the same tick
as the first one's, its entry stays where it was, and it is shut down one tick too early. -/
theorem shared_update_cuts_off : ¬∀ (n : Nat) (es : List (Event Bool)), 0 < n → n < 2 ^ 64 →
    (machine Bool).Legal (fun _ _ => True) (new Bool n) es →
    Yields (Timely n) (fun _ => False) ((machine Bool).run (new Bool n) es) := by
  intro h
  have hrun := h 8 [.up true, .up false, .tick, .message true, .message false, .tick, .tick,
    .tick, .tick, .tick, .tick, .tick] (by decide) (by decide) (by decide +kernel)
  have hearly : ((machine Bool).run (new Bool 8) [.up true, .up false, .tick, .message true,
      .message false, .tick, .tick, .tick, .tick, .tick, .tick, .tick]).toOption.map
      (fun s => (s.lastActive false, s.shutdowns)) = some (1, [(false, 8)]) := by
    decide +kernel
  cases hr : (machine Bool).run (new Bool 8) [.up true, .up false, .tick, .message true,
      .message false, .tick, .tick, .tick, .tick, .tick, .tick, .tick] with
  | error f => simp [hr, Except.toOption] at hearly
  | ok s =>
    rw [hr] at hrun
    simp only [hr, Except.toOption, Option.map_some, Option.some.injEq, Prod.mk.injEq] at hearly
    have := hrun.onTime false 8 (by simp [hearly.2])
    rw [hearly.1] at this
    omega

end DiscardServer

end Muduo.Examples
