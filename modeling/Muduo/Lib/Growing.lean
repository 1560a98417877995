import Muduo.Lib.Machine

namespace Muduo.Lib

universe u

variable {ι α φ : Type*} {σ : Type u} {Inv : List α → σ → Prop} {total a b : List α}
  {f g : σ → Except φ σ}

/-- A computation that makes the items `new`, on the way to a given list of all of them. -/
def Grows (Inv : List α → σ → Prop) (total : List α) (f : σ → Except φ σ) (new : List α) : Prop :=
  ∀ done s, Inv done s → done ++ new <+: total → ∃ s', f s = .ok s' ∧ Inv (done ++ new) s'

namespace Grows

theorem skip : Grows Inv total (fun s => (.ok s : Except φ σ)) [] :=
  fun done s h _ => ⟨s, rfl, by rwa [List.append_nil]⟩

theorem andThen (hf : Grows Inv total f a) (hg : Grows Inv total g b) :
    Grows Inv total (fun s => f s >>= g) (a ++ b) := by
  intro done s h hp
  rw [← List.append_assoc] at hp
  obtain ⟨s', hs, h'⟩ := hf done s h ((List.prefix_append _ b).trans hp)
  obtain ⟨t, ht, h''⟩ := hg (done ++ a) s' h' hp
  refine ⟨t, ?_, by rwa [← List.append_assoc]⟩
  simp only [hs, ok_bind, ht]

/-- A loop makes what its rounds make. -/
theorem forEach {l : List ι} {act : σ → ι → Except φ σ} {new : ι → List α}
    (h : ∀ i ∈ l, Grows Inv total (fun s => act s i) (new i)) :
    Grows Inv total (fun s => l.foldlM act s) (l.flatMap new) := by
  induction l with
  | nil => exact skip
  | cons i l ih =>
    obtain ⟨hi, hl⟩ := List.forall_mem_cons.mp h
    exact hi.andThen (ih hl)

theorem all (h : Grows Inv total f total) {s : σ} (hs : Inv [] s) :
    ∃ s', f s = .ok s' ∧ Inv total s' := by
  obtain ⟨s', hf, hi⟩ := h [] s hs (List.prefix_refl total)
  exact ⟨s', hf, by rwa [List.nil_append] at hi⟩

end Grows

end Muduo.Lib
