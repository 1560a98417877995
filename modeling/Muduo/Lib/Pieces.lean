import Mathlib.Data.List.Basic

namespace Muduo.Lib

variable {α : Type*} {p : α → Bool} {l xs as : List α} {a sep : α} {i j : Nat}

/-- What stands between the separators, where anything does. -/
noncomputable def pieces (p : α → Bool) (l : List α) : List (List α) :=
  (l.splitOnP p).filter fun piece => !piece.isEmpty

@[simp] theorem pieces_nil : pieces p [] = [] := by
  simp [pieces]

/-- A separator keeps what comes before it apart from what comes after it. -/
theorem pieces_append (xs as : List α) (h : p sep = true) :
    pieces p (xs ++ sep :: as) = pieces p xs ++ pieces p as := by
  simp [pieces, List.splitOnP_append_cons xs as h]

theorem pieces_cons (as : List α) (h : p sep = true) : pieces p (sep :: as) = pieces p as := by
  simpa using pieces_append [] as h

theorem pieces_replicate (n : Nat) (as : List α) (h : p sep = true) :
    pieces p (List.replicate n sep ++ as) = pieces p as := by
  induction n with
  | zero => rfl
  | succ n ih => rw [List.replicate_succ, List.cons_append, pieces_cons _ h, ih]

/-- Without separators there is one piece, or none. -/
theorem pieces_clean (h : ∀ x ∈ xs, p x = false) :
    pieces p xs = if xs = [] then [] else [xs] := by
  cases xs with
  | nil => simp
  | cons x xs => simp [pieces, List.splitOnP_eq_singleton h]

/-- A piece with separators after it, which it needs where anything follows. -/
theorem pieces_piece {n : Nat} (hsep : p sep = true) (hne : xs ≠ [])
    (hclean : ∀ x ∈ xs, p x = false) (h : 0 < n ∨ as = []) :
    pieces p (xs ++ (List.replicate n sep ++ as)) = xs :: pieces p as := by
  cases n with
  | zero =>
    have hlast : as = [] := by simpa using h
    simp [hlast, pieces_clean hclean, hne]
  | succ n =>
    rw [List.replicate_succ, List.cons_append, pieces_append _ _ hsep, pieces_replicate _ _ hsep,
      pieces_clean hclean, if_neg hne, List.singleton_append]

theorem flatten_splitOnP (l : List α) : (l.splitOnP p).flatten = l.filter fun x => !p x := by
  induction l with
  | nil => simp
  | cons x l ih =>
    obtain ⟨piece, rest, hsplit⟩ := List.exists_cons_of_ne_nil (List.splitOnP_ne_nil p l)
    rw [hsplit] at ih
    rw [List.splitOnP_cons_eq_if_modifyHead, hsplit]
    cases hx : p x with
    | true => simpa [hx] using ih
    | false => simpa [hx] using ih

/-- The pieces hold every element that is not a separator, in order. -/
theorem flatten_pieces (l : List α) : (pieces p l).flatten = l.filter fun x => !p x := by
  rw [pieces, List.flatten_filter_not_isEmpty, flatten_splitOnP]

/-- Some positions of a list, from `start` up to `stop`. -/
structure Segment where
  start : Nat
  stop : Nat
  deriving DecidableEq, Repr

namespace Segment

def text (s : Segment) (l : List α) : List α := (l.drop s.start).take (s.stop - s.start)

instance : Membership Nat Segment := ⟨fun s i => s.start ≤ i ∧ i < s.stop⟩

theorem mem_def {s : Segment} : i ∈ s ↔ s.start ≤ i ∧ i < s.stop := Iff.rfl

/-- No separator at a position from `i` up to `j`. -/
def Clean (p : α → Bool) (l : List α) (i j : Nat) : Prop :=
  ∀ k, i ≤ k → k < j → ∀ a, l[k]? = some a → p a = false

/-- A separator at a position. -/
def SepAt (p : α → Bool) (l : List α) (i : Nat) : Prop := ∃ a, l[i]? = some a ∧ p a = true

/-- As long as it can be without a separator, and not empty. -/
structure IsPiece (p : α → Bool) (l : List α) (s : Segment) : Prop where
  nonempty : s.start < s.stop
  inside : s.stop ≤ l.length
  clean : Clean p l s.start s.stop
  left : s.start = 0 ∨ SepAt p l (s.start - 1)
  right : s.stop = l.length ∨ SepAt p l s.stop

variable {s t : Segment}

theorem Clean.not_sepAt (h : Clean p l i j) {k : Nat} (hi : i ≤ k) (hj : k < j) :
    ¬SepAt p l k := by
  intro hsep
  obtain ⟨a, hget, ha⟩ := hsep
  have hclean := h k hi hj a hget
  simp [ha] at hclean

theorem Clean.mono {i' j' : Nat} (h : Clean p l i j) (hi : i ≤ i') (hj : j' ≤ j) :
    Clean p l i' j' :=
  fun k hk hk' => h k (Nat.le_trans hi hk) (Nat.lt_of_lt_of_le hk' hj)

theorem mem_text : a ∈ s.text l ↔ ∃ i ∈ s, l[i]? = some a := by
  simp only [text, List.mem_iff_getElem?, mem_def]
  constructor
  · intro h
    obtain ⟨k, hk⟩ := h
    have hlt : k < s.stop - s.start := by
      by_contra hge
      rw [List.getElem?_take, if_neg hge] at hk
      cases hk
    refine ⟨s.start + k, by omega, ?_⟩
    simpa [List.getElem?_take, hlt] using hk
  · intro h
    obtain ⟨i, hi, hget⟩ := h
    refine ⟨i - s.start, ?_⟩
    have hlt : i - s.start < s.stop - s.start := by omega
    have hadd : s.start + (i - s.start) = i := by omega
    simpa [List.getElem?_take, hlt, hadd] using hget

theorem text_clean (h : Clean p l s.start s.stop) (ha : a ∈ s.text l) : p a = false := by
  obtain ⟨i, hi, hget⟩ := mem_text.mp ha
  exact h i hi.1 hi.2 a hget

theorem length_text (h : s.stop ≤ l.length) : (s.text l).length = s.stop - s.start := by
  simp only [text, List.length_take, List.length_drop]
  omega

/-- A segment without a separator is one piece, or none. -/
theorem pieces_text (h : Clean p l s.start s.stop) (hin : s.stop ≤ l.length) :
    pieces p (s.text l) = if s.stop > s.start then [s.text l] else [] := by
  have hlen := length_text hin
  rw [pieces_clean fun _ ha => text_clean h ha]
  by_cases hmore : s.stop > s.start
  · have hne : s.text l ≠ [] := by
      intro hnil
      rw [hnil, List.length_nil] at hlen
      omega
    rw [if_pos hmore, if_neg hne]
  · have hnil : s.text l = [] := List.eq_nil_of_length_eq_zero (by omega)
    rw [if_neg hmore, if_pos hnil]

namespace IsPiece

theorem text_ne_nil (h : s.IsPiece p l) : s.text l ≠ [] := by
  intro hnil
  have hlen := length_text h.inside
  have hlt := h.nonempty
  simp [hnil] at hlen
  omega

theorem start_le (hs : s.IsPiece p l) (ht : t.IsPiece p l) (his : i ∈ s) (hit : i ∈ t) :
    t.start ≤ s.start := by
  by_contra hlt
  have hs' := mem_def.mp his
  have ht' := mem_def.mp hit
  cases ht.left with
  | inl hzero => omega
  | inr hsep => exact hs.clean.not_sepAt (by omega) (by omega) hsep

theorem stop_le (hs : s.IsPiece p l) (ht : t.IsPiece p l) (his : i ∈ s) (hit : i ∈ t) :
    s.stop ≤ t.stop := by
  by_contra hlt
  have hs' := mem_def.mp his
  have ht' := mem_def.mp hit
  have hin := hs.inside
  cases ht.right with
  | inl hend => omega
  | inr hsep => exact hs.clean.not_sepAt (by omega) (by omega) hsep

/-- A position lies in one piece at most. -/
theorem unique (hs : s.IsPiece p l) (ht : t.IsPiece p l) (his : i ∈ s) (hit : i ∈ t) :
    s = t := by
  obtain ⟨start, stop⟩ := s
  obtain ⟨start', stop'⟩ := t
  have hstart := Nat.le_antisymm (ht.start_le hs hit his) (hs.start_le ht his hit)
  have hstop := Nat.le_antisymm (hs.stop_le ht his hit) (ht.stop_le hs hit his)
  simp only at hstart hstop
  rw [hstart, hstop]

end IsPiece

/-- Back from a position to the separator before it. -/
theorem exists_start (hi : Clean p l i (i + 1)) :
    ∃ start, start ≤ i ∧ Clean p l start (i + 1) ∧ (start = 0 ∨ SepAt p l (start - 1)) := by
  induction i with
  | zero => exact ⟨0, Nat.le_refl 0, hi, Or.inl rfl⟩
  | succ i ih =>
    by_cases hsep : SepAt p l i
    · exact ⟨i + 1, Nat.le_refl _, hi, Or.inr hsep⟩
    · have hprev : Clean p l i (i + 1) := by
        intro k hk hk' a hget
        obtain rfl : k = i := by omega
        by_contra ha
        exact hsep ⟨a, hget, by simpa using ha⟩
      obtain ⟨start, hle, hclean, hleft⟩ := ih hprev
      refine ⟨start, Nat.le_succ_of_le hle, ?_, hleft⟩
      intro k hk hk'
      by_cases hlast : k < i + 1
      · exact hclean k hk hlast
      · exact hi k (by omega) hk'

/-- On from a position to the separator after it. -/
theorem exists_stop (hlen : j ≤ l.length) (hi : Clean p l i j) :
    ∃ stop, j ≤ stop ∧ stop ≤ l.length ∧ Clean p l i stop ∧
      (stop = l.length ∨ SepAt p l stop) := by
  generalize hrest : l.length - j = n
  induction n generalizing j with
  | zero => exact ⟨j, Nat.le_refl j, hlen, hi, Or.inl (by omega)⟩
  | succ n ih =>
    by_cases hsep : SepAt p l j
    · exact ⟨j, Nat.le_refl j, hlen, hi, Or.inr hsep⟩
    · have hnext : Clean p l i (j + 1) := by
        intro k hk hk' a hget
        by_cases hlast : k < j
        · exact hi k hk hlast a hget
        · obtain rfl : k = j := by omega
          by_contra ha
          exact hsep ⟨a, hget, by simpa using ha⟩
      obtain ⟨stop, hle, hin, hclean, hright⟩ := ih (by omega) hnext (by omega)
      exact ⟨stop, by omega, hin, hclean, hright⟩

/-- From one element to another without a separator: the piece that holds both. -/
theorem exists_isPiece (hij : i ≤ j) (hlen : j < l.length) (h : Clean p l i (j + 1)) :
    ∃ s, IsPiece p l s ∧ i ∈ s ∧ j ∈ s := by
  obtain ⟨start, hle, hback, hleft⟩ := exists_start (h.mono (Nat.le_refl i) (by omega))
  have hboth : Clean p l start (j + 1) := by
    intro k hk hk'
    by_cases hki : k < i + 1
    · exact hback k hk hki
    · exact h k (by omega) hk'
  obtain ⟨stop, hge, hin, hclean, hright⟩ := exists_stop hlen hboth
  refine ⟨⟨start, stop⟩, ⟨?_, hin, hclean, hleft, hright⟩, mem_def.mpr ?_, mem_def.mpr ?_⟩
  all_goals
    simp only
    omega

/-- An element that is not a separator lies in exactly one piece. -/
theorem existsUnique_isPiece (hget : l[i]? = some a) (ha : p a = false) :
    ∃! s, IsPiece p l s ∧ i ∈ s := by
  obtain ⟨hlt, -⟩ := List.getElem?_eq_some_iff.mp hget
  have hclean : Clean p l i (i + 1) := by
    intro k hk hk' b hb
    obtain rfl : k = i := by omega
    obtain rfl := Option.some.inj (hget.symm.trans hb)
    exact ha
  obtain ⟨s, hs, his, -⟩ := exists_isPiece (Nat.le_refl i) hlt hclean
  exact ⟨s, ⟨hs, his⟩, fun t ht => ht.1.unique hs ht.2 his⟩

/-- Two elements lie in one piece exactly when no separator lies between them. -/
theorem together_iff (hij : i ≤ j) (hlen : j < l.length) :
    (∃ s, IsPiece p l s ∧ i ∈ s ∧ j ∈ s) ↔ Clean p l i (j + 1) := by
  constructor
  · intro h
    obtain ⟨s, hs, his, hjs⟩ := h
    exact hs.clean.mono his.1 hjs.2
  · exact exists_isPiece hij hlen

end Segment

end Muduo.Lib
