import Mathlib.Data.List.FinRange
import Mathlib.Logic.Function.Basic

namespace Muduo.Lib

/-- The descriptors of a process, numbers below a limit, and who has those that are open. -/
structure Descriptors (limit : Nat) (ω : Type) where
  owner : Fin limit → Option ω

namespace Descriptors

variable {limit : Nat} {ω : Type} (d : Descriptors limit ω) {fd gd : Fin limit} {w : ω}

/-- The descriptor that is opened next, the lowest that is free. -/
def lowest : Option (Fin limit) := (List.finRange limit).find? fun fd => (d.owner fd).isNone

def allot (fd : Fin limit) (w : ω) : Descriptors limit ω :=
  ⟨Function.update d.owner fd (some w)⟩

def release (fd : Fin limit) : Descriptors limit ω := ⟨Function.update d.owner fd none⟩

/-- `close`, also of a variable that has no descriptor. -/
def close : Option (Fin limit) → Descriptors limit ω
  | none => d
  | some fd => d.release fd

variable {d}

@[simp] theorem owner_allot : (d.allot fd w).owner fd = some w := Function.update_self ..

theorem owner_allot_of_ne (h : gd ≠ fd) : (d.allot fd w).owner gd = d.owner gd :=
  Function.update_of_ne h ..

@[simp] theorem owner_release : (d.release fd).owner fd = none := Function.update_self ..

theorem owner_release_of_ne (h : gd ≠ fd) : (d.release fd).owner gd = d.owner gd :=
  Function.update_of_ne h ..

@[simp] theorem close_none : d.close none = d := rfl

@[simp] theorem close_some : d.close (some fd) = d.release fd := rfl

theorem lowest_free (h : d.lowest = some fd) : d.owner fd = none := by
  simpa using List.find?_some h

/-- What is open stays where it is when another descriptor is opened. -/
theorem owner_of_lowest (h : d.lowest = some fd) (hg : d.owner gd ≠ none) :
    (d.allot fd w).owner gd = d.owner gd := by
  apply owner_allot_of_ne
  intro he
  exact hg (he ▸ lowest_free h)

/-- Some descriptor is free. -/
def Free (d : Descriptors limit ω) : Prop := ∃ fd, d.owner fd = none

theorem lowest_of_free (h : d.Free) : ∃ fd, d.lowest = some fd := by
  obtain ⟨fd, hfree⟩ := h
  cases hl : d.lowest with
  | some gd => exact ⟨gd, rfl⟩
  | none =>
    have := List.find?_eq_none.mp hl fd (List.mem_finRange fd)
    simp [hfree] at this

theorem free_release : (d.release fd).Free := ⟨fd, owner_release⟩

end Descriptors

end Muduo.Lib
