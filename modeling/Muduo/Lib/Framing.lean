import Muduo.Lib.Machine

namespace Muduo.Lib

/-- A receiver of framed data. `run s input` is what it does with the bytes it has not used
yet: it takes frames off the front and returns its state with the bytes it leaves. -/
structure Receiver (σ α β φ : Type) where
  encode : α → List β
  deliver : σ → α → σ
  run : σ → List β → Except φ (σ × List β)

namespace Receiver

variable {σ α β φ : Type} (r : Receiver σ α β φ)

/-- One chunk arrives behind what is left of the earlier ones. -/
def arrive (s : σ × List β) (chunk : List β) : Except φ (σ × List β) := r.run s.1 (s.2 ++ chunk)

def feed (s : σ × List β) (chunks : List (List β)) : Except φ (σ × List β) :=
  chunks.foldlM r.arrive s

/-- The frames of a list that lie wholly in the first `k` bytes of its encoding. -/
def completed : List α → Nat → List α
  | [], _ => []
  | a :: as, k =>
    if (r.encode a).length ≤ k then a :: completed as (k - (r.encode a).length) else []

/-- The bytes among the first `k` that belong to no complete frame. -/
def remainder : List α → Nat → List β
  | [], _ => []
  | a :: as, k =>
    if (r.encode a).length ≤ k then remainder as (k - (r.encode a).length)
    else (r.encode a).take k

/-- The frames not complete after `k` bytes, and how many bytes of them are there. -/
def outstanding : List α → Nat → List α × Nat
  | [], _ => ([], 0)
  | a :: as, k =>
    if (r.encode a).length ≤ k then outstanding as (k - (r.encode a).length) else (a :: as, k)

/-- The receiver takes a whole frame at once and leaves an incomplete one alone. -/
structure Exact (good : α → Prop) : Prop where
  nonempty : ∀ a, good a → r.encode a ≠ []
  frame : ∀ s a rest, good a → r.run s (r.encode a ++ rest) = r.run (r.deliver s a) rest
  incomplete : ∀ s a k, good a → k < (r.encode a).length →
    r.run s ((r.encode a).take k) = .ok (s, (r.encode a).take k)
  idle : ∀ s, r.run s [] = .ok (s, [])

variable {r} {good : α → Prop} {as : List α}

theorem completed_add (as : List α) (k m : Nat) :
    r.completed as (k + m) = r.completed as k ++
      r.completed (r.outstanding as k).1 ((r.outstanding as k).2 + m) := by
  induction as generalizing k with
  | nil => rfl
  | cons a as ih =>
    by_cases hk : (r.encode a).length ≤ k
    · have hkm : (r.encode a).length ≤ k + m := by omega
      simp only [completed, outstanding, if_pos hk, if_pos hkm, Nat.sub_add_comm hk, ih,
        List.cons_append]
    · simp only [completed, outstanding, if_neg hk, List.nil_append]

theorem remainder_add (as : List α) (k m : Nat) :
    r.remainder as (k + m) =
      r.remainder (r.outstanding as k).1 ((r.outstanding as k).2 + m) := by
  induction as generalizing k with
  | nil => rfl
  | cons a as ih =>
    by_cases hk : (r.encode a).length ≤ k
    · have hkm : (r.encode a).length ≤ k + m := by omega
      simp only [remainder, outstanding, if_pos hk, if_pos hkm, Nat.sub_add_comm hk, ih]
    · simp only [remainder, outstanding, if_neg hk]

theorem outstanding_sub (as : List α) (k : Nat) : (r.outstanding as k).1 ⊆ as := by
  induction as generalizing k with
  | nil => exact List.Subset.refl _
  | cons a as ih =>
    simp only [outstanding]
    split
    · exact List.subset_cons_of_subset a (ih _)
    · exact List.Subset.refl _

theorem completed_sub (as : List α) (k : Nat) : r.completed as k ⊆ as := by
  induction as generalizing k with
  | nil => exact List.Subset.refl _
  | cons a as ih =>
    simp only [completed]
    split
    · exact List.cons_subset_cons a (ih _)
    · exact List.nil_subset _

theorem completed_prefix (as : List α) (k : Nat) : r.completed as k <+: as := by
  induction as generalizing k with
  | nil => exact List.nil_prefix
  | cons a as ih =>
    simp only [completed]
    split
    · exact List.cons_prefix_cons.mpr ⟨rfl, ih _⟩
    · exact List.nil_prefix

/-- Once all bytes are there, so are all frames. -/
theorem completed_all (as : List α) : r.completed as (as.flatMap r.encode).length = as := by
  induction as with
  | nil => rfl
  | cons a as ih =>
    rw [List.flatMap_cons, List.length_append, completed, if_pos (Nat.le_add_right ..),
      Nat.add_sub_cancel_left, ih]

theorem completed_append (as : List α) (k : Nat) :
    r.completed as k ++ (r.outstanding as k).1 = as := by
  induction as generalizing k with
  | nil => rfl
  | cons a as ih =>
    simp only [completed, outstanding]
    split
    · rw [List.cons_append, ih]
    · rfl

theorem remainder_all (as : List α) : r.remainder as (as.flatMap r.encode).length = [] := by
  induction as with
  | nil => rfl
  | cons a as ih =>
    rw [List.flatMap_cons, List.length_append, remainder, if_pos (Nat.le_add_right ..),
      Nat.add_sub_cancel_left, ih]

/-- What has arrived is the complete frames and the start of the outstanding ones. -/
theorem stream_split (as : List α) {k : Nat} (hk : k ≤ (as.flatMap r.encode).length) :
    as.flatMap r.encode = (r.completed as k).flatMap r.encode ++
        (r.outstanding as k).1.flatMap r.encode ∧
      k = ((r.completed as k).flatMap r.encode).length + (r.outstanding as k).2 ∧
      r.remainder as k =
        ((r.outstanding as k).1.flatMap r.encode).take (r.outstanding as k).2 := by
  induction as generalizing k with
  | nil =>
    have hzero : k = 0 := by simpa using hk
    subst hzero
    exact ⟨rfl, rfl, rfl⟩
  | cons a as ih =>
    rw [List.flatMap_cons, List.length_append] at hk
    by_cases hle : (r.encode a).length ≤ k
    · obtain ⟨hs, hl, hr⟩ := ih (k := k - (r.encode a).length) (by omega)
      simp only [completed, remainder, outstanding, if_pos hle, List.flatMap_cons,
        List.append_assoc, List.length_append]
      exact ⟨by rw [← hs], by omega, hr⟩
    · simp only [completed, remainder, outstanding, if_neg hle, List.flatMap_nil, List.nil_append,
        List.length_nil, Nat.zero_add, List.flatMap_cons]
      exact ⟨trivial, trivial, (List.take_append_of_le_length (by omega)).symm⟩

/-- What has arrived, as complete frames and the bytes left of them. -/
theorem take_stream (as : List α) {k : Nat} (hk : k ≤ (as.flatMap r.encode).length) :
    (as.flatMap r.encode).take k = (r.completed as k).flatMap r.encode ++ r.remainder as k := by
  obtain ⟨hstream, hlen, hrem⟩ := stream_split (r := r) as hk
  have htake : ((r.completed as k).flatMap r.encode ++
      (r.outstanding as k).1.flatMap r.encode).take
        (((r.completed as k).flatMap r.encode).length + (r.outstanding as k).2) =
      (r.completed as k).flatMap r.encode ++
        ((r.outstanding as k).1.flatMap r.encode).take (r.outstanding as k).2 :=
    List.take_length_add_append ..
  rw [← hstream, ← hlen] at htake
  rw [hrem, htake]

/-- What is left behind the next bytes is the end of what was left, with these behind it. -/
theorem remainder_suffix (as : List α) {k : Nat} {new : List β}
    (h : (as.flatMap r.encode).take k ++ new <+: as.flatMap r.encode)
    (hk : k ≤ (as.flatMap r.encode).length) :
    ∃ done, r.remainder as k ++ new = done ++ r.remainder as (k + new.length) := by
  have hlen : ((as.flatMap r.encode).take k ++ new).length = k + new.length := by
    rw [List.length_append, List.length_take, Nat.min_eq_left hk]
  have htake : (as.flatMap r.encode).take k ++ new =
      (as.flatMap r.encode).take (k + new.length) := by
    rw [← hlen]
    exact List.prefix_iff_eq_take.mp h
  rw [take_stream as hk, take_stream as (hlen ▸ h.length_le), completed_add, List.flatMap_append,
    List.append_assoc, List.append_assoc, List.append_cancel_left_eq] at htake
  exact ⟨_, htake⟩

/-- What arrives as the first `k` bytes of the frames is taken apart exactly. -/
theorem Exact.run_take (h : r.Exact good) (hg : ∀ a ∈ as, good a) (s : σ) (k : Nat) :
    r.run s ((as.flatMap r.encode).take k) =
      .ok ((r.completed as k).foldl r.deliver s, r.remainder as k) := by
  induction as generalizing s k with
  | nil => simpa [completed, remainder] using h.idle s
  | cons a as ih =>
    have ha := hg a List.mem_cons_self
    rw [List.flatMap_cons, List.take_append]
    by_cases hk : (r.encode a).length ≤ k
    · rw [List.take_of_length_le hk, h.frame s a _ ha, ih fun b hb => hg b (List.mem_cons_of_mem a hb)]
      simp only [completed, remainder, if_pos hk, List.foldl_cons]
    · have hzero : k - (r.encode a).length = 0 := by omega
      rw [hzero, List.take_zero, List.append_nil, h.incomplete s a k ha (by omega)]
      simp only [completed, remainder, if_neg hk, List.foldl_nil]

theorem outstanding_add (as : List α) (k m : Nat) :
    r.outstanding as (k + m) =
      r.outstanding (r.outstanding as k).1 ((r.outstanding as k).2 + m) := by
  induction as generalizing k with
  | nil => rfl
  | cons a as ih =>
    by_cases hk : (r.encode a).length ≤ k
    · have hkm : (r.encode a).length ≤ k + m := by omega
      simp only [outstanding, if_pos hk, if_pos hkm, Nat.sub_add_comm hk, ih]
    · simp only [outstanding, if_neg hk]

theorem completed_outstanding (as : List α) (k : Nat) :
    r.completed (r.outstanding as k).1 (r.outstanding as k).2 = [] := by
  have h := completed_add (r := r) as k 0
  rw [Nat.add_zero, Nat.add_zero] at h
  exact List.self_eq_append_right.mp h

theorem take_append_tail {e t chunk : List β} {j : Nat}
    (h : (e ++ t).take (e.length + j) ++ chunk = (e ++ t).take (e.length + j + chunk.length)) :
    t.take j ++ chunk = t.take (j + chunk.length) := by
  rw [Nat.add_assoc, List.take_length_add_append, List.take_length_add_append,
    List.append_assoc] at h
  exact List.append_cancel_left h

/-- From wherever the frames stand, further chunks complete the frames they should. -/
theorem Exact.feed_from (h : r.Exact good) (hg : ∀ a ∈ as, good a) (s : σ) {k : Nat}
    (chunks : List (List β)) (hk : k ≤ (as.flatMap r.encode).length)
    (hc : (as.flatMap r.encode).take k ++ chunks.flatten <+: as.flatMap r.encode) :
    r.feed (s, r.remainder as k) chunks =
      .ok ((r.completed (r.outstanding as k).1
          ((r.outstanding as k).2 + chunks.flatten.length)).foldl r.deliver s,
        r.remainder as (k + chunks.flatten.length)) := by
  induction chunks generalizing s k with
  | nil =>
    simp only [List.flatten_nil, List.length_nil, Nat.add_zero, completed_outstanding]
    rfl
  | cons chunk chunks ih =>
    obtain ⟨hsplit, hlen, hrem⟩ := stream_split as hk
    rw [List.flatten_cons, ← List.append_assoc] at hc
    have htake : (as.flatMap r.encode).take k ++ chunk =
        (as.flatMap r.encode).take (k + chunk.length) := by
      have hp := (List.prefix_append _ _).trans hc
      have hl : ((as.flatMap r.encode).take k ++ chunk).length = k + chunk.length := by
        rw [List.length_append, List.length_take, Nat.min_eq_left hk]
      rw [List.prefix_iff_eq_take.mp hp, hl]
    have hkc : k + chunk.length ≤ (as.flatMap r.encode).length := by
      have hp := ((List.prefix_append _ _).trans hc).length_le
      rw [List.length_append, List.length_take, Nat.min_eq_left hk] at hp
      exact hp
    -- what is left of the earlier chunks, with this one behind it
    have hinput : r.remainder as k ++ chunk =
        ((r.outstanding as k).1.flatMap r.encode).take ((r.outstanding as k).2 + chunk.length) := by
      rw [hrem]
      refine take_append_tail (e := (r.completed as k).flatMap r.encode) ?_
      rw [← hsplit, ← hlen]
      exact htake
    have hgood : ∀ a ∈ (r.outstanding as k).1, good a := fun a ha =>
      hg a (outstanding_sub as k ha)
    have harrive := h.run_take hgood s ((r.outstanding as k).2 + chunk.length)
    have hnext := ih (k := k + chunk.length)
      ((r.completed (r.outstanding as k).1 ((r.outstanding as k).2 + chunk.length)).foldl r.deliver s)
      hkc (htake ▸ hc)
    rw [feed, List.foldlM_cons, arrive, hinput, harrive, ok_bind, ← remainder_add]
    refine hnext.trans ?_
    have hcomp := completed_add (r := r) (r.outstanding as k).1
      ((r.outstanding as k).2 + chunk.length) chunks.flatten.length
    rw [outstanding_add, List.flatten_cons, List.length_append, ← Nat.add_assoc, ← Nat.add_assoc,
      hcomp, List.foldl_append]

/-- However the encoded frames are cut into chunks, every frame is delivered once, in order
and with the chunk that holds its last byte, and what is left waits for the next one. -/
theorem Exact.feed_frames (h : r.Exact good) (hg : ∀ a ∈ as, good a) (s : σ)
    {chunks : List (List β)} (hc : chunks.flatten <+: as.flatMap r.encode) :
    r.feed (s, []) chunks =
      .ok ((r.completed as chunks.flatten.length).foldl r.deliver s,
        r.remainder as chunks.flatten.length) := by
  have hzero : r.outstanding as 0 = (as, 0) ∧ r.remainder as 0 = [] := by
    cases as with
    | nil => exact ⟨rfl, rfl⟩
    | cons a as =>
      have hne : ¬(r.encode a).length ≤ 0 := fun hl =>
        h.nonempty a (hg a List.mem_cons_self) (List.length_eq_zero_iff.mp (Nat.le_zero.mp hl))
      simp only [outstanding, remainder, if_neg hne, List.take_zero, and_self]
  have hfeed := h.feed_from (k := 0) hg s _ (Nat.zero_le _) (by simpa using hc)
  simpa only [hzero.1, hzero.2, Nat.zero_add] using hfeed

end Receiver

end Muduo.Lib
