import Mathlib.Data.Set.Insert

namespace Muduo.Lib

variable {ι ο : Type*}

/-- The chosen options hit every item just once, and nothing but items. -/
structure ExactCover (hits : ο → ι → Prop) (options : Set ο) (items : Set ι) (chosen : Set ο) :
    Prop where
  offered : chosen ⊆ options
  within : ∀ o ∈ chosen, ∀ i, hits o i → i ∈ items
  once : ∀ i ∈ items, ∃! o, o ∈ chosen ∧ hits o i

variable {hits : ο → ι → Prop} {options chosen : Set ο} {items : Set ι} {o : ο} {i : ι}

theorem exactCover_empty : ExactCover hits options ∅ ∅ :=
  ⟨Set.empty_subset options, fun _ h => h.elim, fun _ h => h.elim⟩

/-- The items that are left once an option is chosen. -/
def without (hits : ο → ι → Prop) (items : Set ι) (o : ο) : Set ι := {i ∈ items | ¬hits o i}

namespace ExactCover

theorem extend (h : ExactCover hits options (without hits items o) chosen) (ho : o ∈ options)
    (hin : ∀ i, hits o i → i ∈ items) : ExactCover hits options items (insert o chosen) where
  offered := Set.insert_subset ho h.offered
  within := by
    intro p hp i hi
    rcases hp with rfl | hp
    · exact hin i hi
    · exact (h.within p hp i hi).1
  once := by
    intro i hi
    by_cases hoi : hits o i
    · refine ⟨o, ⟨Set.mem_insert o chosen, hoi⟩, ?_⟩
      rintro p ⟨rfl | hp, hpi⟩
      · rfl
      · exact absurd hoi (h.within p hp i hpi).2
    · obtain ⟨p, ⟨hp, hpi⟩, huniq⟩ := h.once i ⟨hi, hoi⟩
      refine ⟨p, ⟨Set.mem_insert_of_mem o hp, hpi⟩, ?_⟩
      rintro q ⟨rfl | hq, hqi⟩
      · exact absurd hqi hoi
      · exact huniq q ⟨hq, hqi⟩

theorem remove (h : ExactCover hits options items chosen) (ho : o ∈ chosen) :
    ExactCover hits options (without hits items o) (chosen \ {o}) where
  offered := fun _ hp => h.offered hp.1
  within := by
    intro p ⟨hp, hne⟩ i hi
    have hitem := h.within p hp i hi
    obtain ⟨q, -, huniq⟩ := h.once i hitem
    refine ⟨hitem, fun hoi => hne ?_⟩
    exact (huniq p ⟨hp, hi⟩).trans (huniq o ⟨ho, hoi⟩).symm
  once := by
    intro i ⟨hitem, hoi⟩
    obtain ⟨p, ⟨hp, hpi⟩, huniq⟩ := h.once i hitem
    refine ⟨p, ⟨⟨hp, ?_⟩, hpi⟩, fun q hq => huniq q ⟨hq.1.1, hq.2⟩⟩
    rintro rfl
    exact hoi hpi

/-- A cover settles every item by one of the options that can still be chosen for it. -/
theorem branch (h : ExactCover hits options items chosen) (hi : i ∈ items) :
    ∃ o ∈ options, hits o i ∧ (∀ k, hits o k → k ∈ items) ∧
      ExactCover hits options (without hits items o) (chosen \ {o}) := by
  obtain ⟨o, ⟨ho, hoi⟩, -⟩ := h.once i hi
  exact ⟨o, h.offered ho, hoi, h.within o ho, h.remove ho⟩

end ExactCover

end Muduo.Lib
