import Muduo.Lib.Framing

namespace Muduo.Lib

/-- What reads an item off the front of its input; `none` is that none is there yet. -/
abbrev Parse (γ β : Type) := List β → Option (γ × List β)

namespace Parse

variable {σ α β γ δ φ : Type} {p : Parse γ β}

/-- Nothing that comes later changes what was read. -/
def Final (p : Parse γ β) : Prop :=
  ∀ buf c rest more, p buf = some (c, rest) → p (buf ++ more) = some (c, rest ++ more)

/-- An item that is read takes up some of the input. -/
def Consumes (p : Parse γ β) : Prop :=
  ∀ buf c rest, p buf = some (c, rest) → rest.length < buf.length

/-- What was read decides how to go on. -/
def andThen (p : Parse γ β) (next : γ → Parse δ β) : Parse δ β := fun buf =>
  (p buf).bind fun x => next x.1 x.2

/-- What was read may make no sense. -/
def sift (p : Parse γ β) (f : γ → Option δ) : Parse δ β := fun buf =>
  (p buf).bind fun x => (f x.1).map fun d => (d, x.2)

/-- A number of elements. -/
def counted (n : Nat) : Parse (List β) β := fun buf =>
  if n ≤ buf.length then some (buf.take n, buf.drop n) else none

theorem Final.andThen {next : γ → Parse δ β} (h : Final p) (hnext : ∀ c, Final (next c)) :
    Final (p.andThen next) := by
  intro buf d rest more hread
  obtain ⟨x, hx, hd⟩ := Option.bind_eq_some_iff.mp hread
  have hx' := h buf x.1 x.2 more hx
  simp only [Parse.andThen, hx', Option.bind_some]
  exact hnext x.1 x.2 d rest more hd

theorem Final.sift {f : γ → Option δ} (h : Final p) : Final (p.sift f) := by
  intro buf d rest more hread
  obtain ⟨x, hx, hd⟩ := Option.bind_eq_some_iff.mp hread
  obtain ⟨e, he, heq⟩ := Option.map_eq_some_iff.mp hd
  have hx' := h buf x.1 x.2 more hx
  cases heq
  simp only [Parse.sift, hx', Option.bind_some, he, Option.map_some]

theorem final_counted (n : Nat) : Final (counted (β := β) n) := by
  intro buf c rest more hread
  unfold counted at hread ⊢
  split at hread
  · rename_i hn
    cases hread
    rw [if_pos (by rw [List.length_append]; omega), List.take_append_of_le_length hn,
      List.drop_append_of_le_length hn]
  · cases hread

/-- The input does not grow. -/
def Bounded (p : Parse γ β) : Prop :=
  ∀ buf c rest, p buf = some (c, rest) → rest.length ≤ buf.length

theorem bounded_counted (n : Nat) : Bounded (counted (β := β) n) := by
  intro buf c rest hread
  unfold counted at hread
  split at hread
  · cases hread
    rw [List.length_drop]
    exact Nat.sub_le ..
  · cases hread

theorem Bounded.sift {f : γ → Option δ} (h : Bounded p) : Bounded (p.sift f) := by
  intro buf d rest hread
  obtain ⟨x, hx, hd⟩ := Option.bind_eq_some_iff.mp hread
  obtain ⟨e, -, heq⟩ := Option.map_eq_some_iff.mp hd
  cases heq
  exact h buf x.1 x.2 hx

theorem Consumes.sift {f : γ → Option δ} (h : Consumes p) : Consumes (p.sift f) := by
  intro buf d rest hread
  obtain ⟨x, hx, hd⟩ := Option.bind_eq_some_iff.mp hread
  obtain ⟨e, -, heq⟩ := Option.map_eq_some_iff.mp hd
  cases heq
  exact h buf x.1 x.2 hx

theorem Bounded.andThen {next : γ → Parse δ β} (h : Bounded p) (hnext : ∀ c, Bounded (next c)) :
    Bounded (p.andThen next) := by
  intro buf d rest hread
  obtain ⟨x, hx, hd⟩ := Option.bind_eq_some_iff.mp hread
  exact Nat.le_trans (hnext x.1 x.2 d rest hd) (h buf x.1 x.2 hx)

theorem Consumes.andThen {next : γ → Parse δ β} (h : Consumes p) (hnext : ∀ c, Bounded (next c)) :
    Consumes (p.andThen next) := by
  intro buf d rest hread
  obtain ⟨x, hx, hd⟩ := Option.bind_eq_some_iff.mp hread
  exact Nat.lt_of_le_of_lt (hnext x.1 x.2 d rest hd) (h buf x.1 x.2 hx)

/-- All the items that are there. -/
def all (p : Parse γ β) (deliver : σ → γ → σ) (s : σ) (buf : List β) : σ × List β :=
  match p buf with
  | none => (s, buf)
  | some (c, rest) =>
    if rest.length < buf.length then all p deliver (deliver s c) rest else (s, buf)
termination_by buf.length

theorem all_none {deliver : σ → γ → σ} {s : σ} {buf : List β} (h : p buf = none) :
    p.all deliver s buf = (s, buf) := by
  rw [all, h]

theorem all_some (hp : Consumes p) {deliver : σ → γ → σ} {s : σ} {buf rest : List β} {c : γ}
    (h : p buf = some (c, rest)) : p.all deliver s buf = p.all deliver (deliver s c) rest := by
  rw [all, h]
  exact if_pos (hp buf c rest h)

/-- The receiver that reads what it can. -/
def receiver (p : Parse γ β) (encode : α → List β) (view : α → γ) (deliver : σ → γ → σ) :
    Receiver σ α β φ where
  encode := encode
  deliver := fun s a => deliver s (view a)
  run := fun s buf => .ok (p.all deliver s buf)

/-- It is exact where an item is read from its encoding. -/
theorem receiver_exact (hfinal : Final p) (hconsumes : Consumes p) {encode : α → List β}
    {view : α → γ} {deliver : σ → γ → σ} {good : α → Prop}
    (h : ∀ a, good a → p (encode a) = some (view a, [])) :
    (p.receiver encode view deliver : Receiver σ α β φ).Exact good := by
  have hnothing : p [] = none := by
    cases hread : p [] with
    | none => rfl
    | some x => exact absurd (hconsumes [] x.1 x.2 hread) (by simp)
  refine ⟨fun a ha hnil => ?_, fun s a rest ha => ?_, fun s a k ha hk => ?_, fun s => ?_⟩
  · have hread := h a ha
    rw [show encode a = [] from hnil, hnothing] at hread
    cases hread
  · have hread := hfinal _ _ _ rest (h a ha)
    exact congrArg Except.ok (all_some hconsumes hread)
  · have hnone : p ((encode a).take k) = none := by
      cases hread : p ((encode a).take k) with
      | none => rfl
      | some x =>
        -- read from a part of the encoding, the item would leave the other part
        have hwhole := hfinal _ _ _ ((encode a).drop k) hread
        rw [List.take_append_drop, h a ha] at hwhole
        have hrest := congrArg (fun o => o.map fun y => y.2.length) hwhole
        simp only [Option.map_some, Option.some.injEq, List.length_nil, List.length_append,
          List.length_drop] at hrest
        have hk' : k < (encode a).length := hk
        omega
    exact congrArg Except.ok (all_none hnone)
  · exact congrArg Except.ok (all_none hnothing)

end Parse

end Muduo.Lib
