import Mathlib.Data.List.Basic
import Mathlib.Order.Basic

namespace Muduo.Lib.OrderedMap

variable {κ κ' β : Type} {k k' : κ} {v : β} {m : List (κ × β)}

/-- A strict order of keys, any two of which it tells apart. -/
structure Order (lt : κ → κ → Bool) : Prop where
  irrefl : ∀ a, lt a a = false
  trans : ∀ a b c, lt a b → lt b c → lt a c
  total : ∀ a b, a ≠ b → lt a b ∨ lt b a

/-- The entries of a map, by growing keys. -/
def Sorted (lt : κ → κ → Bool) (m : List (κ × β)) : Prop := m.Pairwise fun a b => lt a.1 b.1

variable {lt : κ → κ → Bool}

theorem Sorted.tail {e : κ × β} (h : Sorted lt (e :: m)) : Sorted lt m := (List.pairwise_cons.mp h).2

theorem Sorted.head {e : κ × β} (h : Sorted lt (e :: m)) : ∀ x ∈ m, lt e.1 x.1 :=
  (List.pairwise_cons.mp h).1

section Update
variable [DecidableEq κ]

/-- The value of a key is replaced, or the key put in its place. -/
def update (lt : κ → κ → Bool) (k : κ) (f : Option β → β) : List (κ × β) → List (κ × β)
  | [] => [(k, f none)]
  | (k', v) :: rest =>
    if lt k k' then (k, f none) :: (k', v) :: rest
    else if k = k' then (k, f (some v)) :: rest
    else (k', v) :: update lt k f rest

def erase (k : κ) (m : List (κ × β)) : List (κ × β) := m.filter fun e => e.1 ≠ k

theorem key_update {f : Option β → β} {e : κ × β} (he : e ∈ update lt k f m) :
    e.1 = k ∨ ∃ x ∈ m, e.1 = x.1 := by
  induction m with
  | nil =>
    left
    simpa [update] using congrArg Prod.fst (List.mem_singleton.mp he)
  | cons x rest ih =>
    obtain ⟨k', v⟩ := x
    unfold update at he
    split at he
    · cases List.mem_cons.mp he with
      | inl heq => exact .inl (congrArg Prod.fst heq)
      | inr hmem => exact .inr ⟨e, hmem, rfl⟩
    · split at he
      · cases List.mem_cons.mp he with
        | inl heq => exact .inl (congrArg Prod.fst heq)
        | inr hmem => exact .inr ⟨e, List.mem_cons_of_mem _ hmem, rfl⟩
      · cases List.mem_cons.mp he with
        | inl heq => exact .inr ⟨(k', v), List.mem_cons_self, congrArg Prod.fst heq⟩
        | inr hmem =>
          cases ih hmem with
          | inl hkey => exact .inl hkey
          | inr hold =>
            obtain ⟨x, hx, hkey⟩ := hold
            exact .inr ⟨x, List.mem_cons_of_mem _ hx, hkey⟩

theorem Sorted.update (ho : Order lt) (h : Sorted lt m) (k : κ) (f : Option β → β) :
    Sorted lt (update lt k f m) := by
  induction m with
  | nil => exact List.pairwise_singleton ..
  | cons x rest ih =>
    obtain ⟨k', v⟩ := x
    unfold OrderedMap.update
    split
    · rename_i hlt
      refine List.pairwise_cons.mpr ⟨fun e he => ?_, h⟩
      cases List.mem_cons.mp he with
      | inl heq => exact heq ▸ hlt
      | inr hmem => exact ho.trans _ _ _ hlt (h.head e hmem)
    · rename_i hnot
      split
      · rename_i heq
        subst heq
        exact List.pairwise_cons.mpr ⟨h.head, h.tail⟩
      · rename_i hne
        refine List.pairwise_cons.mpr ⟨fun e he => ?_, ih h.tail⟩
        have hlt : lt k' k := (ho.total k k' hne).resolve_left hnot
        cases key_update he with
        | inl hkey => exact hkey ▸ hlt
        | inr hold =>
          obtain ⟨x, hx, hkey⟩ := hold
          exact hkey ▸ h.head x hx

theorem Sorted.erase (h : Sorted lt m) (k : κ) : Sorted lt (erase k m) := h.filter _

end Update

section Lookup
variable [DecidableEq κ] [BEq κ] [LawfulBEq κ]

theorem lookup_pair : ((k, v) :: m).lookup k' = if k' = k then some v else m.lookup k' := by
  rw [List.lookup_cons]
  by_cases hk : k' = k
  · simp [hk]
  · rw [if_neg hk, beq_false_of_ne hk]

/-- A key before the others is not among them. -/
theorem lookup_none (ho : Order lt) (h : ∀ e ∈ m, lt k e.1) : m.lookup k = none := by
  induction m with
  | nil => rfl
  | cons e rest ih =>
    obtain ⟨key, w⟩ := e
    have hlt : lt k key = true := h _ List.mem_cons_self
    have hne : k ≠ key := by
      intro heq
      rw [← heq, ho.irrefl] at hlt
      cases hlt
    rw [lookup_pair, if_neg hne]
    exact ih fun x hx => h x (List.mem_cons_of_mem _ hx)

theorem mem_iff_lookup (ho : Order lt) (h : Sorted lt m) : (k, v) ∈ m ↔ m.lookup k = some v := by
  induction m with
  | nil => simp
  | cons e rest ih =>
    obtain ⟨k', w⟩ := e
    rw [List.mem_cons, lookup_pair, ih h.tail]
    by_cases heq : k = k'
    · subst heq
      have hnone : rest.lookup k = none := lookup_none ho h.head
      simp [hnone, eq_comm]
    · simp [heq]

theorem lookup_update (ho : Order lt) (h : Sorted lt m) (f : Option β → β) :
    (update lt k f m).lookup k' = if k' = k then some (f (m.lookup k)) else m.lookup k' := by
  induction m with
  | nil => by_cases hk : k' = k <;> simp [update, lookup_pair, hk]
  | cons e rest ih =>
    obtain ⟨key, w⟩ := e
    unfold update
    split
    · rename_i hlt
      have hbefore : ∀ e ∈ (key, w) :: rest, lt k e.1 := by
        intro e he
        cases List.mem_cons.mp he with
        | inl heq => exact heq ▸ hlt
        | inr hmem => exact ho.trans _ _ _ hlt (h.head e hmem)
      rw [lookup_pair, lookup_none ho hbefore]
    · split
      · rename_i heq
        subst heq
        by_cases hk : k' = k <;> simp [lookup_pair, hk]
      · rename_i hne
        rw [lookup_pair, ih h.tail]
        by_cases hk : k' = k
        · subst hk
          simp [lookup_pair, hne]
        · simp [lookup_pair, hk]

theorem lookup_erase :
    (erase k m).lookup k' = if k' = k then none else m.lookup k' := by
  induction m with
  | nil => simp [erase]
  | cons e rest ih =>
    obtain ⟨key, w⟩ := e
    by_cases hkey : key = k
    · subst hkey
      have hskip : erase key ((key, w) :: rest) = erase key rest := by simp [erase]
      rw [hskip, ih, lookup_pair]
      by_cases hk : k' = key <;> simp [hk]
    · have hkeep : erase k ((key, w) :: rest) = (key, w) :: erase k rest := by simp [erase, hkey]
      rw [hkeep, lookup_pair, ih, lookup_pair]
      by_cases hk : k' = key
      · subst hk
        simp [hkey]
      · simp [hk]

end Lookup

section Nested
variable {lt' : κ' → κ' → Bool} {m : List (κ × List (κ' × β))} {k k' : κ} {c c' : κ'} {v : β}

/-- A map of maps. -/
structure Nested (lt : κ → κ → Bool) (lt' : κ' → κ' → Bool) (m : List (κ × List (κ' × β))) :
    Prop where
  outer : Sorted lt m
  inner : ∀ l ∈ m, Sorted lt' l.2

/-- The entries of a map of maps, under both keys. -/
def flat (m : List (κ × List (κ' × β))) : List (κ × κ' × β) :=
  m.flatMap fun l => l.2.map fun e => (l.1, e.1, e.2)

/-- By the outer key, then by the inner. -/
def Before (lt : κ → κ → Bool) (lt' : κ' → κ' → Bool) (a b : κ × κ' × β) : Prop :=
  lt a.1 b.1 ∨ a.1 = b.1 ∧ lt' a.2.1 b.2.1

theorem Nested.nil : Nested lt lt' ([] : List (κ × List (κ' × β))) := ⟨.nil, by simp⟩

theorem Nested.flat_sorted (h : Nested lt lt' m) : (flat m).Pairwise (Before lt lt') := by
  induction m with
  | nil => exact .nil
  | cons l rest ih =>
    have htail : Nested lt lt' rest :=
      ⟨h.outer.tail, fun l' hl' => h.inner l' (List.mem_cons_of_mem _ hl')⟩
    rw [flat, List.flatMap_cons, List.pairwise_append]
    refine ⟨?_, ih htail, ?_⟩
    · rw [List.pairwise_map]
      exact (h.inner l List.mem_cons_self).imp fun hlt => .inr ⟨rfl, hlt⟩
    · intro a ha b hb
      obtain ⟨e, -, rfl⟩ := List.mem_map.mp ha
      obtain ⟨l', hl', hb⟩ := List.mem_flatMap.mp hb
      obtain ⟨e', -, rfl⟩ := List.mem_map.mp hb
      exact .inl (h.outer.head l' hl')

variable [DecidableEq κ] [BEq κ] [LawfulBEq κ]

def entry [BEq κ'] (m : List (κ × List (κ' × β))) (k : κ) (c : κ') : Option β :=
  (m.lookup k).bind fun l => l.lookup c

theorem Nested.mem_flat [DecidableEq κ'] [BEq κ'] [LawfulBEq κ'] (ho : Order lt)
    (ho' : Order lt') (h : Nested lt lt' m) :
    (k, c, v) ∈ flat m ↔ entry m k c = some v := by
  rw [entry, Option.bind_eq_some_iff, flat, List.mem_flatMap]
  constructor
  · intro hmem
    obtain ⟨l, hl, he⟩ := hmem
    obtain ⟨e, hmem, heq⟩ := List.mem_map.mp he
    cases heq
    exact ⟨l.2, (mem_iff_lookup ho h.outer).mp hl, (mem_iff_lookup ho' (h.inner l hl)).mp hmem⟩
  · intro hlookup
    obtain ⟨l, hl, hc⟩ := hlookup
    have hmem := (mem_iff_lookup ho h.outer).mpr hl
    exact ⟨(k, l), hmem, List.mem_map.mpr
      ⟨(c, v), (mem_iff_lookup ho' (h.inner _ hmem)).mpr hc, rfl⟩⟩

/-- A change of one inner map, which may be new. -/
theorem Nested.update (ho : Order lt) (h : Nested lt lt' m) (k : κ)
    {g : List (κ' × β) → List (κ' × β)} (hg : ∀ l, Sorted lt' l → Sorted lt' (g l)) :
    Nested lt lt' (update lt k (fun l => g (l.getD [])) m) := by
  have houter := h.outer.update ho k fun l => g (l.getD [])
  refine ⟨houter, fun l hl => ?_⟩
  have hlookup := (mem_iff_lookup ho houter (k := l.1) (v := l.2)).mp hl
  rw [lookup_update ho h.outer] at hlookup
  split at hlookup
  · rw [← Option.some.inj hlookup]
    apply hg
    cases hold : m.lookup k with
    | none => exact .nil
    | some l' => exact h.inner _ ((mem_iff_lookup ho h.outer).mpr hold)
  · exact h.inner _ ((mem_iff_lookup ho h.outer).mpr hlookup)

theorem Nested.entry_update [DecidableEq κ'] [BEq κ'] (ho : Order lt) (h : Nested lt lt' m)
    {g : List (κ' × β) → List (κ' × β)} {e : Option β}
    (hg : ∀ l, Sorted lt' l → ∀ c', (g l).lookup c' = if c' = c then e else l.lookup c') :
    entry (OrderedMap.update lt k (fun l => g (l.getD [])) m) k' c' =
      if k' = k ∧ c' = c then e else entry m k' c' := by
  rw [entry, lookup_update ho h.outer]
  by_cases hk : k' = k
  · subst hk
    rw [if_pos rfl, Option.bind_some]
    cases hold : m.lookup k' with
    | none => simp [entry, hold, hg [] .nil]
    | some l => simp [entry, hold, hg l (h.inner _ ((mem_iff_lookup ho h.outer).mpr hold))]
  · simp [entry, hk]

end Nested

end Muduo.Lib.OrderedMap
