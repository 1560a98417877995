import Muduo.Lib.RoundRobin
import Muduo.Net.ServerRuns

namespace Muduo.Net.TcpServer
open Muduo.Lib

variable {s t : TcpServer} {k : Nat} {l : LoopId} {r : ServerConnection} {n : Nat}
  {ms : List (Milestone × LoopId)}

/-- The IO loop of connection `k`, of a server with `n` of them. -/
def turn (n k : Nat) : LoopId := if n = 0 then 0 else (k - 1) % n + 1

/-- The loop of each connection, on which it stays. -/
def loopOf (s : TcpServer) (k : Nat) : Option LoopId := (s.accepted k).map (·.loop)

/-- Nothing was accepted, and no connection has moved. -/
structure Stayed (s t : TcpServer) : Prop where
  loops : t.loops = s.loops
  next : t.next = s.next
  nextConnId : t.nextConnId = s.nextConnId
  loopOf : t.loopOf = s.loopOf

theorem Stayed.refl (s : TcpServer) : Stayed s s := ⟨rfl, rfl, rfl, rfl⟩

theorem Stayed.update (hk : s.accepted k = some r) {r' : ServerConnection} (hr : r'.loop = r.loop)
    (hsame : t.loops = s.loops ∧ t.next = s.next ∧ t.nextConnId = s.nextConnId)
    (haccepted : t.accepted = Function.update s.accepted k (some r')) : Stayed s t := by
  refine ⟨hsame.1, hsame.2.1, hsame.2.2, funext fun k' => ?_⟩
  by_cases hne : k' = k
  · subst hne
    simp [TcpServer.loopOf, haccepted, hk, hr]
  · simp [TcpServer.loopOf, haccepted, Function.update_of_ne hne]

theorem onConnection_stayed {op : TcpConnection → Except Fault TcpConnection}
    (h : s.onConnection l k ms op = .ok t) : Stayed s t := by
  unfold onConnection at h
  split at h
  · cases h
    exact .refl s
  · rename_i r hk
    obtain ⟨-, -, h⟩ := bind_ok h
    obtain ⟨c, -, h⟩ := bind_ok h
    cases h
    refine .update hk ?_ ⟨rfl, rfl, rfl⟩ rfl
    rfl

theorem removeConnectionInLoop_stayed (h : s.removeConnectionInLoop l k = .ok t) :
    Stayed s t := by
  unfold removeConnectionInLoop at h
  split at h
  · cases h
    exact .refl s
  · rename_i r hk
    obtain ⟨-, -, h⟩ := bind_ok h
    obtain ⟨-, -, h⟩ := bind_ok h
    cases h
    refine .update hk ?_ ⟨rfl, rfl, rfl⟩ rfl
    rfl

theorem runFunctor_stayed {w : WriteResult} {task : Task} (h : s.runFunctor l w k task = .ok t) :
    Stayed s t := by
  unfold runFunctor at h
  split at h
  · exact onConnection_stayed h
  · exact removeConnectionInLoop_stayed h
  · exact onConnection_stayed h
  · exact onConnection_stayed h

/-- Only `newConnection` accepts. -/
theorem step_stayed {e : ServerEvent} (h : s.step e = .ok t)
    (hne : ∀ writeComplete highWater mark, e ≠ .newConnection writeComplete highWater mark) :
    Stayed s t := by
  cases e with
  | newConnection writeComplete highWater mark => exact absurd rfl (hne _ _ _)
  | call k c =>
    simp only [step] at h
    split at h
    · cases h
      exact .refl s
    · exact onConnection_stayed h
  | poll k rv =>
    simp only [step] at h
    split at h
    · cases h
      exact .refl s
    · cases h
      exact ⟨rfl, rfl, rfl, rfl⟩
  | handle l read w =>
    simp only [step] at h
    split at h
    · cases h
      exact .refl s
    · obtain ⟨hloops, hnext, hid, hof⟩ := onConnection_stayed h
      exact ⟨hloops, hnext, hid, hof⟩
  | closeCallback l =>
    simp only [step] at h
    split at h
    · cases h
      exact .refl s
    · unfold removeConnection at h
      split at h
      · obtain ⟨hloops, hnext, hid, hof⟩ := removeConnectionInLoop_stayed h
        exact ⟨hloops, hnext, hid, hof⟩
      · cases h
        exact ⟨rfl, rfl, rfl, rfl⟩
  | functor l w =>
    simp only [step] at h
    split at h
    · cases h
      exact .refl s
    · obtain ⟨hloops, hnext, hid, hof⟩ := runFunctor_stayed h
      exact ⟨hloops, hnext, hid, hof⟩

/-- Connections are numbered from 1, and the pool's `next_` is at the turn of the next one. -/
structure Turned (n : Nat) (s : TcpServer) : Prop where
  loops : s.loops = n
  one_le : 1 ≤ s.nextConnId
  next : s.next = (s.nextConnId - 1) % n ∨ n = 0
  loopOf : ∀ k, s.loopOf k = if 1 ≤ k ∧ k < s.nextConnId then some (turn n k) else none

theorem new_turned (name : Bytes) (ipPort : IpPort) (n : Nat) : Turned n (new name ipPort n) := by
  refine ⟨rfl, Nat.le_refl 1, .inl ?_, fun k => ?_⟩
  · simp [new]
  · rw [if_neg (by simp only [new]; omega)]
    rfl

theorem Turned.stayed (h : Turned n s) (hst : Stayed s t) : Turned n t := by
  obtain ⟨hloops, hnext, hid, hof⟩ := hst
  exact ⟨hloops.trans h.loops, hid ▸ h.one_le, by rw [hnext, hid]; exact h.next,
    fun k => by rw [hof, hid]; exact h.loopOf k⟩

/-- A connection goes to the loop whose turn it is. -/
theorem Turned.getNextLoop (h : Turned n s) : ∃ next,
    s.getNextLoop = (turn n s.nextConnId, { s with next := next }) ∧
      (next = s.nextConnId % n ∨ n = 0) := by
  unfold TcpServer.getNextLoop
  by_cases hn : n = 0
  · rw [if_pos (h.loops.trans hn)]
    exact ⟨s.next, by simp [turn, hn], .inr hn⟩
  · rw [if_neg (by rw [h.loops]; exact hn)]
    have hnext := h.next.resolve_right hn
    refine ⟨_, by rw [hnext, turn, if_neg hn], .inl ?_⟩
    rw [h.loops]
    have hafter := RoundRobin.after_mod (n := n) (by omega) (s.nextConnId - 1)
    rw [Nat.sub_add_cancel h.one_le] at hafter
    exact hafter

theorem Turned.newConnection (h : Turned n s) {writeComplete highWater : Bool} {mark : Nat}
    (hok : s.newConnection writeComplete highWater mark = .ok t) : Turned n t := by
  obtain ⟨next, hnext, hturn⟩ := h.getNextLoop
  simp only [TcpServer.newConnection, hnext] at hok
  obtain ⟨c, -, hok⟩ := bind_ok hok
  -- the server with the new connection, before that is established
  have hjoined : Turned n (s.joined (turn n s.nextConnId) next c) := by
    refine ⟨h.loops, by simp [joined], ?_, fun k => ?_⟩
    · simpa [joined] using hturn
    · have hone := h.one_le
      have hold := h.loopOf k
      by_cases hk : k = s.nextConnId
      · subst hk
        simp [TcpServer.loopOf, joined, hone]
      · have hother : (s.joined (turn n s.nextConnId) next c).loopOf k = s.loopOf k := by
          simp [TcpServer.loopOf, joined, Function.update_of_ne hk]
        have hbefore : (1 ≤ k ∧ k < s.nextConnId + 1) ↔ (1 ≤ k ∧ k < s.nextConnId) := by omega
        rw [hother, hold]
        simp only [joined, hbefore]
  split at hok
  · have hstayed := onConnection_stayed hok
    exact hjoined.stayed hstayed
  · cases hok
    exact hjoined.stayed ⟨rfl, rfl, rfl, rfl⟩

theorem Turned.step (h : Turned n s) {e : ServerEvent} (hok : s.step e = .ok t) : Turned n t := by
  by_cases hnew : ∃ writeComplete highWater mark, e = .newConnection writeComplete highWater mark
  · obtain ⟨writeComplete, highWater, mark, rfl⟩ := hnew
    exact h.newConnection hok
  · exact h.stayed (step_stayed hok (by simpa using hnew))

/-- How many connections loop `l` was ever given. -/
def given (s : TcpServer) (l : LoopId) : Nat := s.nextConnId.count fun k => s.loopOf k = some l

/-- The connections of the server take turns on its IO loops, none of which is ever more than one
ahead of another; without IO loops they are all on the base loop. -/
structure Balanced (n : Nat) (s : TcpServer) : Prop where
  loopOf : ∀ k, s.loopOf k = if 1 ≤ k ∧ k < s.nextConnId then some (turn n k) else none
  share : ∀ i, i < n → s.given (i + 1) = RoundRobin.share n (s.nextConnId - 1) i
  even : ∀ i j, i < n → j < n → s.given (i + 1) ≤ s.given (j + 1) + 1

theorem Turned.given (h : Turned n s) {i : Nat} (hi : i < n) :
    s.given (i + 1) = RoundRobin.share n (s.nextConnId - 1) i := by
  have hone := h.one_le
  obtain ⟨m, hm⟩ : ∃ m, s.nextConnId = m + 1 := ⟨s.nextConnId - 1, by omega⟩
  have hzero : s.loopOf 0 ≠ some (i + 1) := by simp [h.loopOf]
  have hturn : ∀ k, k < m → (s.loopOf (k + 1) = some (i + 1) ↔ k % n = i) := by
    intro k hk
    rw [h.loopOf, if_pos (by omega), turn, if_neg (by omega), Nat.add_sub_cancel]
    simp
  rw [TcpServer.given, hm, Nat.count_succ', if_neg hzero, Nat.add_zero, Nat.add_sub_cancel]
  apply Nat.le_antisymm
  · exact Nat.count_mono_left fun k hk => (hturn k hk).mp
  · exact Nat.count_mono_left fun k hk => (hturn k hk).mpr

theorem Turned.balanced (h : Turned n s) : Balanced n s where
  loopOf := h.loopOf
  share := fun i hi => h.given hi
  even := by
    intro i j hi hj
    rw [h.given hi, h.given hj]
    exact RoundRobin.share_even hi hj

/-- In every run of a server its connections are spread evenly. -/
theorem loops_balanced (name : Bytes) (ipPort : IpPort) (n : Nat) {es : List ServerEvent}
    (h : machine.Legal (fun _ _ => True) (new name ipPort n) es) :
    Yields (Balanced n) (· = Fault.lengthError) (machine.run (new name ipPort n) es) := by
  have hrun : Yields (fun s => Coherent s ∧ Turned n s) (· = Fault.lengthError)
      (machine.run (new name ipPort n) es) := by
    refine Machine.run_keeps (fun s e hs he _ => ?_)
      ⟨new_coherent name ipPort n, new_turned name ipPort n⟩ h
    have hcoherent := step_coherent hs.1 he
    change Yields _ _ (s.step e)
    cases hstep : s.step e with
    | error f =>
      rw [hstep] at hcoherent
      exact hcoherent
    | ok t =>
      rw [hstep] at hcoherent
      exact ⟨hcoherent, hs.2.step hstep⟩
  exact hrun.mono fun s hs => hs.2.balanced

/-- Three connections on two IO loops, one of them erased while the others stay. -/
theorem loops_balanced_sample : Yields (Balanced 2) (· = Fault.lengthError)
    (machine.run (new (ascii "echo") sampleAddress 2)
      (sampleRun ++ [.newConnection true true 1, .functor 1 (.wrote 0)])) :=
  loops_balanced (ascii "echo") sampleAddress 2 (by decide +kernel)

end Muduo.Net.TcpServer
