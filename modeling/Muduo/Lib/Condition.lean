import Mathlib.Data.List.Basic

namespace Muduo.Lib

/-- The threads inside `wait()` of a condition variable: those that wait, those a notification
has woken, and those awake without one. The last two have yet to lock the mutex. -/
structure Condition (κ : Type) where
  waiting : List κ
  notified : List κ
  awake : List κ
  deriving DecidableEq

namespace Condition

variable {κ : Type}

def empty : Condition κ := ⟨[], [], []⟩

def inside (c : Condition κ) : List κ := c.waiting ++ (c.notified ++ c.awake)

def wait (c : Condition κ) (k : κ) : Condition κ := { c with waiting := c.waiting ++ [k] }

/-- Whom a notification may wake: any one of those that wait, if there are any. -/
def MayWake (c : Condition κ) : Option κ → Prop
  | some k => k ∈ c.waiting
  | none => c.waiting = []

/-- A thread that is to lock the mutex again. -/
def Woken (c : Condition κ) (k : κ) : Prop := k ∈ c.notified ∨ k ∈ c.awake

def notifyAll (c : Condition κ) : Condition κ := ⟨[], c.notified ++ c.waiting, c.awake⟩

/-- Where a thread waits, a notification is pending for each of the `n` things to be had. -/
def Told (c : Condition κ) (n : Nat) : Prop := c.waiting ≠ [] → n ≤ c.notified.length

variable {c : Condition κ} {k x : κ} {wake : Option κ} {m n : Nat}

theorem told_zero (c : Condition κ) : c.Told 0 := fun _ => Nat.zero_le _

theorem told_idle (h : c.waiting = []) : c.Told n := fun hw => absurd h hw

theorem Told.mono (h : c.Told n) (hm : m ≤ n) : c.Told m := fun hw => Nat.le_trans hm (h hw)

theorem Told.pending (h : c.Told n) (hn : 0 < n) (hw : c.waiting ≠ []) : c.notified ≠ [] := by
  have hpos := Nat.lt_of_lt_of_le hn (h hw)
  exact List.ne_nil_of_length_pos hpos

theorem told_notifyAll (c : Condition κ) : c.notifyAll.Told n := told_idle rfl

theorem mem_inside : x ∈ c.inside ↔ x ∈ c.waiting ∨ x ∈ c.notified ∨ x ∈ c.awake := by
  simp only [inside, List.mem_append]

theorem inside_wait : x ∈ (c.wait k).inside ↔ x ∈ c.inside ∨ x = k := by
  simp only [mem_inside, wait, List.mem_append, List.mem_singleton]
  tauto

theorem inside_notifyAll : x ∈ c.notifyAll.inside ↔ x ∈ c.inside := by
  simp only [mem_inside, notifyAll, List.mem_append, List.not_mem_nil, false_or]
  tauto

theorem Woken.inside (h : c.Woken k) : k ∈ c.inside := by
  rw [mem_inside]
  exact .inr h

/-- The threads that are to lock the mutex again. -/
def woken (c : Condition κ) : List κ := c.notified ++ c.awake

theorem woken_of_mem (h : k ∈ c.woken) : c.Woken k := List.mem_append.mp h

theorem perm_wait (c : Condition κ) (k : κ) : (c.wait k).inside.Perm (k :: c.inside) := by
  simp only [inside, wait, List.append_assoc, List.singleton_append]
  exact List.perm_middle

theorem perm_notifyAll (c : Condition κ) : c.notifyAll.inside.Perm c.inside := by
  simp only [inside, notifyAll, List.nil_append, List.append_assoc]
  rw [← List.append_assoc, ← List.append_assoc]
  exact List.perm_append_comm.append_right _

@[simp] theorem woken_wait (c : Condition κ) (k : κ) : (c.wait k).woken = c.woken := rfl

@[simp] theorem waiting_wait (c : Condition κ) (k : κ) :
    (c.wait k).waiting = c.waiting ++ [k] := rfl

theorem length_wait (c : Condition κ) (k : κ) : (c.wait k).inside.length = c.inside.length + 1 :=
  (perm_wait c k).length_eq

theorem exists_mayWake (c : Condition κ) : ∃ wake, c.MayWake wake := by
  cases hw : c.waiting with
  | nil => exact ⟨none, hw⟩
  | cons k l =>
    refine ⟨some k, ?_⟩
    simp only [MayWake, hw]
    exact List.mem_cons_self

variable [DecidableEq κ]

def notify (c : Condition κ) : Option κ → Condition κ
  | some k => { c with waiting := c.waiting.erase k, notified := c.notified ++ [k] }
  | none => c

/-- A spurious wake-up. -/
def rouse (c : Condition κ) (k : κ) : Condition κ :=
  { c with waiting := c.waiting.erase k, awake := c.awake ++ [k] }

/-- The thread has locked the mutex. -/
def resume (c : Condition κ) (k : κ) : Condition κ :=
  if k ∈ c.notified then { c with notified := c.notified.erase k }
  else { c with awake := c.awake.erase k }

instance (c : Condition κ) : ∀ wake, Decidable (c.MayWake wake)
  | some k => inferInstanceAs (Decidable (k ∈ c.waiting))
  | none => inferInstanceAs (Decidable (c.waiting = []))

instance (c : Condition κ) (k : κ) : Decidable (c.Woken k) :=
  inferInstanceAs (Decidable (_ ∨ _))

/-- One more thing to be had, and one notification for it. -/
theorem Told.notify (h : c.Told n) (hm : c.MayWake wake) : (c.notify wake).Told (n + 1) := by
  cases wake with
  | none => exact told_idle hm
  | some k =>
    intro _
    have hle := h (List.ne_nil_of_mem hm)
    simp only [Condition.notify, List.length_append, List.length_singleton]
    omega

theorem Told.rouse (h : c.Told n) : (c.rouse k).Told n := by
  intro hw
  apply h
  intro hnil
  simp [Condition.rouse, hnil] at hw

@[simp] theorem resume_waiting : (c.resume k).waiting = c.waiting := by
  unfold resume
  split <;> rfl

@[simp] theorem resume_notified : (c.resume k).notified = c.notified.erase k := by
  unfold resume
  split
  · rfl
  · rename_i hk
    exact (List.erase_of_not_mem hk).symm

/-- A thread that takes one thing takes at most one notification with it. -/
theorem Told.resume (h : c.Told n) : (c.resume k).Told (n - 1) := by
  intro hw
  rw [resume_waiting] at hw
  have hle := h hw
  have hlen : c.notified.length ≤ (c.notified.erase k).length + 1 := by
    rw [List.length_erase]
    split <;> omega
  rw [resume_notified]
  omega

theorem perm_move {l m r : List κ} (hk : k ∈ l) :
    (l.erase k ++ (m ++ k :: r)).Perm (l ++ (m ++ r)) := by
  have hl := List.perm_cons_erase hk
  have hmid : (l.erase k ++ (m ++ k :: r)).Perm (k :: l.erase k ++ (m ++ r)) := by
    rw [← List.append_assoc, List.cons_append, ← List.append_assoc]
    exact List.perm_middle
  exact hmid.trans (hl.symm.append_right _)

theorem perm_notify (hm : c.MayWake wake) : (c.notify wake).inside.Perm c.inside := by
  cases wake with
  | none => exact List.Perm.refl _
  | some k =>
    simp only [inside, Condition.notify, List.append_assoc, List.singleton_append]
    exact perm_move hm

theorem perm_rouse (hk : k ∈ c.waiting) : (c.rouse k).inside.Perm c.inside := by
  simp only [inside, rouse, ← List.append_assoc]
  have h := perm_move (m := c.notified ++ c.awake) (r := []) hk
  simpa only [List.append_assoc, List.append_nil] using h

theorem perm_woken (hk : c.Woken k) : (k :: (c.resume k).woken).Perm c.woken := by
  unfold resume
  split
  · rename_i hn
    exact (List.perm_cons_erase hn).symm.append_right _
  · rename_i hn
    have ha : k ∈ c.awake := hk.resolve_left hn
    exact List.perm_middle.symm.trans ((List.perm_cons_erase ha).symm.append_left _)

theorem perm_resume (hk : c.Woken k) : (k :: (c.resume k).inside).Perm c.inside := by
  have h := (perm_woken hk).append_left c.waiting
  simp only [inside, resume_waiting]
  exact List.perm_middle.symm.trans h

theorem length_resume (hk : c.Woken k) : (c.resume k).inside.length + 1 = c.inside.length :=
  (perm_resume hk).length_eq

theorem woken_resume (hk : c.Woken k) : (c.resume k).woken.length + 1 = c.woken.length :=
  (perm_woken hk).length_eq

theorem length_notify (hm : c.MayWake wake) :
    (c.notify wake).inside.length = c.inside.length := (perm_notify hm).length_eq

theorem length_waiting_notify (hm : c.MayWake wake) :
    (c.notify wake).waiting.length = c.waiting.length - 1 := by
  cases wake with
  | none =>
    have hnone : c.waiting = [] := hm
    simp only [Condition.notify, hnone, List.length_nil]
  | some k => exact List.length_erase_of_mem hm

/-- A notification leaves nobody waiting where there was one thread at most. -/
theorem waiting_notify (hm : c.MayWake wake) (hone : c.waiting.length ≤ 1) :
    (c.notify wake).waiting = [] := by
  apply List.length_eq_zero_iff.mp
  rw [length_waiting_notify hm]
  omega

theorem woken_notify (c : Condition κ) (wake : Option κ) :
    (c.notify wake).woken.length ≤ c.woken.length + 1 := by
  cases wake with
  | none => exact Nat.le_succ _
  | some k =>
    simp only [Condition.notify, woken, List.length_append, List.length_singleton]
    omega

theorem inside_notify (hm : c.MayWake wake) (h : x ∈ (c.notify wake).inside) : x ∈ c.inside := by
  cases wake with
  | none => exact h
  | some k =>
    simp only [mem_inside, Condition.notify, List.mem_append, List.mem_singleton] at h ⊢
    rcases h with hw | (hn | rfl) | ha
    · exact .inl (List.mem_of_mem_erase hw)
    · exact .inr (.inl hn)
    · exact .inl hm
    · exact .inr (.inr ha)

theorem inside_rouse (hk : k ∈ c.waiting) (h : x ∈ (c.rouse k).inside) : x ∈ c.inside := by
  simp only [mem_inside, rouse, List.mem_append, List.mem_singleton] at h ⊢
  rcases h with hw | hn | ha | rfl
  · exact .inl (List.mem_of_mem_erase hw)
  · exact .inr (.inl hn)
  · exact .inr (.inr ha)
  · exact .inl hk

theorem inside_resume (h : x ∈ (c.resume k).inside) : x ∈ c.inside := by
  simp only [mem_inside, resume_waiting, resume_notified] at h ⊢
  rcases h with hw | hn | ha
  · exact .inl hw
  · exact .inr (.inl (List.mem_of_mem_erase hn))
  · unfold resume at ha
    split at ha
    · exact .inr (.inr ha)
    · exact .inr (.inr (List.mem_of_mem_erase ha))

end Condition

end Muduo.Lib
