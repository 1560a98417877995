import Mathlib.Data.List.Nodup
import Mathlib.Logic.Function.Basic

namespace Muduo.Lib
open Function (update update_self update_of_ne update_apply update_idem update_eq_self)

variable {α σ : Type*} {next prev next' prev' : α → α} {x y z : α} {l l₁ l₂ : List α}

/-- Links lead from `x` over the elements of a list, in its order, to `y`, and back. -/
def Path (next prev : α → α) : α → List α → α → Prop
  | x, [], y => next x = y ∧ prev y = x
  | x, z :: l, y => (next x = z ∧ prev z = x) ∧ Path next prev z l y

theorem path_append :
    Path next prev x (l₁ ++ z :: l₂) y ↔ Path next prev x l₁ z ∧ Path next prev z l₂ y := by
  induction l₁ generalizing x with
  | nil => exact Iff.rfl
  | cons a l₁ ih => exact (and_congr_right fun _ => ih).trans and_assoc.symm

theorem Path.reverse (h : Path next prev x l y) : Path prev next y l.reverse x := by
  induction l generalizing x with
  | nil => exact ⟨h.2, h.1⟩
  | cons a l ih =>
    rw [List.reverse_cons]
    exact path_append.mpr ⟨ih h.2, h.1.2, h.1.1⟩

theorem Path.next_eq (h : Path next prev x l y) : next x = l.headD y := by
  cases l with
  | nil => exact h.1
  | cons a l => exact h.1.1

theorem Path.prev_eq (h : Path next prev x l y) : prev y = l.reverse.headD x := h.reverse.next_eq

theorem Path.congr (h : Path next prev x l y) (hn : ∀ a ∈ x :: l, next' a = next a)
    (hp : ∀ a ∈ y :: l, prev' a = prev a) : Path next' prev' x l y := by
  induction l generalizing x with
  | nil => exact ⟨(hn x (by simp)).trans h.1, (hp y (by simp)).trans h.2⟩
  | cons a l ih =>
    refine ⟨⟨(hn x (by simp)).trans h.1.1, (hp a (by simp)).trans h.1.2⟩, ih h.2 ?_ ?_⟩
    · exact fun b hb => hn b (List.mem_cons_of_mem x hb)
    · intro b hb
      apply hp b
      rcases List.mem_cons.mp hb with rfl | hb
      · exact List.mem_cons_self
      · exact List.mem_cons_of_mem y (List.mem_cons_of_mem a hb)

theorem Path.prev_mem (h : Path next prev x l y) : prev y ∈ x :: l := by
  rw [h.prev_eq]
  cases hl : l.reverse with
  | nil => exact List.mem_cons_self
  | cons a m =>
    have ha : a ∈ l.reverse := by rw [hl]; exact List.mem_cons_self
    exact List.mem_cons_of_mem x (List.mem_reverse.mp ha)

section

variable [DecidableEq α]

theorem update_at (f : α → α) (a b : α) : update f a (f b) b = f b := by
  rw [update_apply]
  split <;> rfl

theorem update_back (f : α → α) {a b : α} (h : f a = b) (c : α) :
    update (update f a c) a b = f := by
  rw [update_idem, ← h, update_eq_self]

/-- The last link of a path is turned to another end. -/
theorem Path.retarget (h : Path next prev x l y) (hnodup : (x :: l).Nodup) (hz : z ∉ l) :
    Path (update next (prev y) z) (update prev z (prev y)) x l z := by
  induction l generalizing x with
  | nil =>
    rw [h.2]
    exact ⟨update_self x z next, update_self z x prev⟩
  | cons a l ih =>
    have hlast : prev y ∈ a :: l := h.2.prev_mem
    have hx : x ≠ prev y := fun he => (List.nodup_cons.mp hnodup).1 (he ▸ hlast)
    have ha : a ≠ z := fun he => hz (he ▸ List.mem_cons_self)
    refine ⟨⟨?_, ?_⟩, ih h.2 hnodup.of_cons fun hm => hz (List.mem_cons_of_mem a hm)⟩
    · exact (update_of_ne hx z next).trans h.1.1
    · exact (update_of_ne ha (prev y) prev).trans h.1.2

end

/-- A circular doubly linked list of the elements of a list, in its order. -/
def Ring (next prev : α → α) : List α → Prop
  | [] => True
  | x :: l => (x :: l).Nodup ∧ Path next prev x l x

theorem Ring.nodup (h : Ring next prev l) : l.Nodup := by
  cases l with
  | nil => exact List.nodup_nil
  | cons x l => exact h.1

theorem ring_singleton (hn : next x = x) (hp : prev x = x) : Ring next prev [x] :=
  ⟨List.nodup_singleton x, hn, hp⟩

theorem Ring.rotate (h : Ring next prev (l₁ ++ l₂)) : Ring next prev (l₂ ++ l₁) := by
  have hnodup := List.perm_append_comm.nodup h.nodup
  cases l₁ with
  | nil => rwa [List.append_nil]
  | cons x l₁ =>
    cases l₂ with
    | nil => rwa [List.append_nil] at h
    | cons y l₂ =>
      obtain ⟨hx, hy⟩ := path_append.mp h.2
      exact ⟨hnodup, path_append.mpr ⟨hy, hx⟩⟩

/-- The other elements of a ring in the order in which they follow `x`. -/
def after [DecidableEq α] (x : α) (l : List α) : List α :=
  l.drop (l.idxOf x + 1) ++ l.take (l.idxOf x)

theorem split_at [DecidableEq α] (hx : x ∈ l) :
    l = l.take (l.idxOf x) ++ x :: l.drop (l.idxOf x + 1) := by
  have hd := List.drop_eq_getElem_cons (List.idxOf_lt_length_iff.mpr hx)
  rw [List.getElem_idxOf] at hd
  rw [← hd, List.take_append_drop]

theorem after_perm [DecidableEq α] (hx : x ∈ l) : (x :: after x l).Perm l := by
  have hp : (x :: after x l).Perm (l.take (l.idxOf x) ++ x :: l.drop (l.idxOf x + 1)) :=
    @List.perm_append_comm _ (x :: l.drop (l.idxOf x + 1)) _
  rwa [← split_at hx] at hp

theorem Ring.after [DecidableEq α] (h : Ring next prev l) (hx : x ∈ l) :
    Ring next prev (x :: after x l) := by
  rw [split_at hx] at h
  exact h.rotate

/-- A ring as it is met from one of its elements. -/
theorem Ring.split (h : Ring next prev l) (hx : x ∈ l) :
    ∃ l₁ l₂, l = l₁ ++ x :: l₂ ∧ Ring next prev (x :: (l₂ ++ l₁)) := by
  obtain ⟨l₁, l₂, rfl⟩ := List.append_of_mem hx
  exact ⟨l₁, l₂, rfl, h.rotate⟩

theorem Ring.congr (h : Ring next prev l) (hn : ∀ a ∈ l, next' a = next a)
    (hp : ∀ a ∈ l, prev' a = prev a) : Ring next' prev' l := by
  cases l with
  | nil => trivial
  | cons x l => exact ⟨h.1, h.2.congr hn hp⟩

theorem Ring.prev_mem (h : Ring next prev l) (hx : x ∈ l) : prev x ∈ l := by
  obtain ⟨l₁, l₂, rfl, hr⟩ := h.split hx
  have hm := hr.2.prev_mem
  simp only [List.mem_cons, List.mem_append] at hm ⊢
  tauto

theorem Ring.next_eq (h : Ring next prev (x :: l)) (hl : l = l₁ ++ y :: l₂) :
    next y = l₂.headD x := by
  subst hl
  exact (path_append.mp h.2).2.next_eq

theorem Ring.prev_eq (h : Ring next prev (x :: l)) (hl : l = l₁ ++ y :: l₂) :
    prev y = l₁.reverse.headD x := by
  subst hl
  exact (path_append.mp h.2).1.prev_eq

theorem Ring.alone (h : Ring next prev (x :: l)) : prev x = x ↔ l = [] := by
  constructor
  · intro hx
    rcases List.eq_nil_or_concat l with rfl | ⟨m, a, rfl⟩
    · rfl
    · rw [List.concat_eq_append] at h
      have ha : prev x = a := by rw [h.2.prev_eq, List.reverse_append]; rfl
      exact absurd (by simp [← hx.symm.trans ha]) (List.nodup_cons.mp h.1).1
  · rintro rfl
    exact h.2.2

theorem Ring.reverse (h : Ring next prev (x :: l)) : Ring prev next (x :: l.reverse) :=
  ⟨List.nodup_cons.mpr ⟨fun hm => (List.nodup_cons.mp h.1).1 (List.mem_reverse.mp hm),
    List.nodup_reverse.mpr h.1.of_cons⟩, h.2.reverse⟩

theorem Ring.next_mem (h : Ring next prev l) (hx : x ∈ l) : next x ∈ l := by
  obtain ⟨l₁, l₂, rfl, hr⟩ := h.split hx
  have hm := hr.reverse.prev_mem List.mem_cons_self
  simp only [List.mem_cons, List.mem_append, List.mem_reverse] at hm ⊢
  tauto

theorem Ring.next_prev (h : Ring next prev l) (hx : x ∈ l) : next (prev x) = x := by
  obtain ⟨l₁, l₂, rfl, hr⟩ := h.split hx
  generalize l₂ ++ l₁ = m at hr
  have hpath := hr.2
  rcases List.eq_nil_or_concat m with rfl | ⟨m, a, rfl⟩
  · exact hpath.2.symm ▸ hpath.1
  · rw [List.concat_eq_append] at hpath
    obtain ⟨-, hn, hp⟩ := path_append.mp hpath
    exact hp.symm ▸ hn

theorem Ring.prev_next (h : Ring next prev l) (hx : x ∈ l) : prev (next x) = x := by
  obtain ⟨l₁, l₂, rfl, hr⟩ := h.split hx
  exact hr.reverse.next_prev List.mem_cons_self

section

variable [DecidableEq α]

/-- Passing an element by takes it out of its ring. -/
theorem Ring.unlink (h : Ring next prev l) (hx : x ∈ l) :
    Ring (update next (prev x) (next x)) (update prev (next x) (prev x)) (l.filter (· ≠ x)) := by
  obtain ⟨l₁, l₂, rfl⟩ := List.append_of_mem hx
  have hfilter : (l₁ ++ x :: l₂).filter (· ≠ x) = l₁ ++ l₂ := by
    obtain ⟨h₁, h₂⟩ := List.nodup_middle.mp h.nodup |> List.nodup_cons.mp
    have hne : ∀ y ∈ l₁ ++ l₂, y ≠ x := fun y hy he => h₁ (he ▸ hy)
    rw [List.filter_append, List.filter_cons_of_neg (by simp), ← List.filter_append]
    exact List.filter_eq_self.mpr fun y hy => decide_eq_true (hne y hy)
  rw [hfilter]
  suffices hs : Ring (update next (prev x) (next x)) (update prev (next x) (prev x)) (l₂ ++ l₁) from
    hs.rotate
  have hr : Ring next prev (x :: (l₂ ++ l₁)) := h.rotate
  cases hm : l₂ ++ l₁ with
  | nil => trivial
  | cons a m =>
    rw [hm] at hr
    obtain ⟨hnodup, ⟨hn, -⟩, hpath⟩ := hr
    rw [hn]
    exact ⟨hnodup.of_cons, hpath.retarget hnodup.of_cons (List.nodup_cons.mp hnodup.of_cons).1⟩

/-- A new element is linked in at the end, before the first one. -/
theorem Ring.insert (h : Ring next prev (x :: l)) (hy : y ∉ x :: l) :
    Ring (update (update next y x) (prev x) y) (update (update prev y (prev x)) x y)
      (x :: l ++ [y]) := by
  have hxy : x ≠ y := fun he => hy (he ▸ List.mem_cons_self)
  have hlast : prev x ≠ y := fun he => hy (he ▸ h.2.prev_mem)
  have hx : x ∉ l := (List.nodup_cons.mp h.1).1
  suffices hs : Ring (update (update next y x) (prev x) y) (update (update prev y (prev x)) x y)
      ([y] ++ x :: l) from hs.rotate
  refine ⟨List.nodup_cons.mpr ⟨hy, h.1⟩, ⟨?_, ?_⟩, ?_⟩
  · rw [update_of_ne hlast.symm, update_self]
  · exact update_self ..
  · refine (h.2.retarget h.1 fun hm => hy (List.mem_cons_of_mem x hm)).congr ?_ ?_
    · intro a ha
      have hay : a ≠ y := fun he => hy (he ▸ ha)
      simp only [update_apply, hay, if_false]
    · intro a ha
      have hax : a ≠ x := by
        rintro rfl
        rcases List.mem_cons.mp ha with rfl | ha
        · exact hxy rfl
        · exact hx ha
      rw [update_of_ne hax]

/-- A ring that shares nothing with the one the new element comes into stays as it is. -/
theorem Ring.insert_other (h : Ring next prev (x :: l)) (hk : Ring next prev l₁)
    (hne : ∀ z ∈ l₁, z ∉ x :: l ∧ z ≠ y) :
    Ring (update (update next y x) (prev x) y) (update (update prev y (prev x)) x y) l₁ := by
  refine hk.congr ?_ ?_
  · intro z hz
    have hlast : z ≠ prev x := fun he => (hne z hz).1 (he ▸ h.prev_mem List.mem_cons_self)
    rw [update_of_ne hlast, update_of_ne (hne z hz).2]
  · intro z hz
    have hx : z ≠ x := fun he => (hne z hz).1 (he ▸ List.mem_cons_self)
    rw [update_of_ne hx, update_of_ne (hne z hz).2]

end

/-- `for (x = first; x != stop; x = next(x)) body(x)`, cut off after `fuel` steps. -/
def walk (next : σ → α → α) [DecidableEq α] (body : α → σ → Option σ) (stop : α) :
    Nat → α → σ → Option σ
  | 0, _, _ => none
  | fuel + 1, x, s =>
    if x = stop then some s
    else (body x s).bind fun s => walk next body stop fuel (next s x) s

/-- A walk visits the elements that are left, as long as each visit leads on to the next one. -/
theorem walk_spec [DecidableEq α] (next : σ → α → α) {body : α → σ → Option σ} {stop : α}
    {Inv : List α → σ → Prop}
    (hstep : ∀ x rest s, Inv (x :: rest) s →
      x ≠ stop ∧ ∃ s', body x s = some s' ∧ next s' x = rest.headD stop ∧ Inv rest s')
    {fuel : Nat} {s : σ} (hfuel : l.length < fuel) (h : Inv l s) :
    ∃ s', walk next body stop fuel (l.headD stop) s = some s' ∧ Inv [] s' := by
  induction l generalizing fuel s with
  | nil =>
    obtain ⟨fuel, rfl⟩ : ∃ n, fuel = n + 1 := ⟨fuel - 1, by simp at hfuel; omega⟩
    exact ⟨s, if_pos rfl, h⟩
  | cons x l ih =>
    obtain ⟨fuel, rfl⟩ : ∃ n, fuel = n + 1 := ⟨fuel - 1, by simp at hfuel; omega⟩
    obtain ⟨hne, s', hb, hn, hi⟩ := hstep x l s h
    obtain ⟨t, hw, ht⟩ := ih (by simpa using hfuel) hi
    refine ⟨t, ?_, ht⟩
    rw [walk, List.headD_cons, if_neg hne, hb, Option.bind_some, hn, hw]

/-- Visits that leave the links alone go once around the ring. -/
theorem walk_ring [DecidableEq α] (next : σ → α → α) (visit : α → σ → σ)
    (hkeep : ∀ x s, next (visit x s) = next s) {fuel : Nat} {s : σ}
    (h : Ring (next s) prev (x :: l)) (hfuel : l.length < fuel) :
    walk next (fun x s => some (visit x s)) x fuel (next s x) s =
      some (l.foldl (fun s x => visit x s) s) := by
  have hlinks (done : List α) (s : σ) : next (done.foldl (fun s x => visit x s) s) = next s := by
    induction done generalizing s with
    | nil => rfl
    | cons y done ih => exact (ih (visit y s)).trans (hkeep y s)
  let Inv (rest : List α) (t : σ) : Prop :=
    ∃ done, l = done ++ rest ∧ t = done.foldl (fun s x => visit x s) s
  have hstep : ∀ y rest t, Inv (y :: rest) t → y ≠ x ∧ ∃ t', some (visit y t) = some t' ∧
      next t' y = rest.headD x ∧ Inv rest t' := by
    rintro y rest t ⟨done, hl, rfl⟩
    have hy : y ∈ l := by rw [hl]; simp
    refine ⟨fun he => (List.nodup_cons.mp h.1).1 (he ▸ hy), _, rfl, ?_, done ++ [y], ?_, ?_⟩
    · rw [hkeep, hlinks]
      exact h.next_eq hl
    · rw [hl, List.append_assoc, List.singleton_append]
    · rw [List.foldl_append]; rfl
  obtain ⟨t, hw, done, hl, rfl⟩ := walk_spec next (s := s) hstep hfuel ⟨[], rfl, rfl⟩
  rw [h.2.next_eq, hw, hl, List.append_nil]

end Muduo.Lib
