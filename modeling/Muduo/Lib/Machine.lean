import Mathlib.Data.List.Basic
import Mathlib.Logic.Function.Basic

namespace Muduo.Lib

universe u

variable {σ τ ε φ : Type*} {α β : Type u}

/-- The result of a computation that may fault satisfies `ok` when there is one,
and any fault it ends in is one that `bad` allows. -/
def Yields (ok : α → Prop) (bad : φ → Prop) : Except φ α → Prop
  | .ok a => ok a
  | .error f => bad f

@[simp] theorem yields_ok {ok : α → Prop} {bad : φ → Prop} {a : α} :
    Yields ok bad (.ok a) ↔ ok a := Iff.rfl

@[simp] theorem yields_error {ok : α → Prop} {bad : φ → Prop} {f : φ} :
    Yields ok bad (.error f) ↔ bad f := Iff.rfl

instance {ok : α → Prop} {bad : φ → Prop} [DecidablePred ok] [DecidablePred bad] :
    ∀ r, Decidable (Yields ok bad r)
  | .ok a => inferInstanceAs (Decidable (ok a))
  | .error f => inferInstanceAs (Decidable (bad f))

instance decidableExistsOk {p : α → Prop} [DecidablePred p] :
    ∀ r : Except φ α, Decidable (∃ a, r = .ok a ∧ p a)
  | .ok a => decidable_of_iff (p a) (by simp only [Except.ok.injEq, exists_eq_left'])
  | .error _ => isFalse (by simp only [reduceCtorEq, false_and, exists_false, not_false_iff])

-- not by `rfl`, so that `simp` leaves no defeq check on the continuation to the kernel
@[simp] theorem ok_bind {a : α} {k : α → Except φ β} : ((.ok a : Except φ α) >>= k) = k a :=
  pure_bind a k

@[simp] theorem error_bind {f : φ} {k : α → Except φ β} :
    ((.error f : Except φ α) >>= k) = .error f := by
  simp only [Bind.bind, Except.bind]

theorem bind_ok {r : Except φ α} {k : α → Except φ β} {b : β} (h : (r >>= k) = .ok b) :
    ∃ a, r = .ok a ∧ k a = .ok b := by
  cases r with
  | ok a => exact ⟨a, rfl, h⟩
  | error f => simp at h

theorem Yields.mono {ok ok' : α → Prop} {bad : φ → Prop} {r : Except φ α}
    (h : Yields ok bad r) (hi : ∀ a, ok a → ok' a) : Yields ok' bad r := by
  cases r with
  | ok a => exact hi a h
  | error f => exact h

theorem Yields.weaken {ok : α → Prop} {bad bad' : φ → Prop} {r : Except φ α}
    (h : Yields ok bad r) (hi : ∀ f, bad f → bad' f) : Yields ok bad' r := by
  cases r with
  | ok a => exact h
  | error f => exact hi f h

theorem Yields.safe {ok : α → Prop} {bad : φ → Prop} {r : Except φ α}
    (h : Yields ok (fun _ => False) r) : Yields ok bad r := h.weaken fun _ hf => hf.elim

theorem yields_any (r : Except φ α) : Yields (fun _ => True) (fun _ => True) r := by
  cases r <;> trivial

theorem Yields.and {ok ok' : α → Prop} {bad bad' : φ → Prop} {r : Except φ α}
    (h : Yields ok bad r) (h' : Yields ok' bad' r) : Yields (fun a => ok a ∧ ok' a) bad r := by
  cases r with
  | ok a => exact ⟨h, h'⟩
  | error f => exact h

theorem Yields.bind {m : α → Prop} {ok : β → Prop} {bad : φ → Prop}
    {r : Except φ α} {k : α → Except φ β} (h : Yields m bad r)
    (hk : ∀ a, m a → Yields ok bad (k a)) : Yields ok bad (r >>= k) := by
  cases r with
  | ok a => exact hk a h
  | error f => exact h

theorem Yields.of_ok {ok : α → Prop} {bad : φ → Prop} {r : Except φ α} {a : α}
    (h : Yields ok bad r) (hr : r = .ok a) : ok a := by
  subst hr
  exact h

/-- With no fault allowed the computation returns. -/
theorem Yields.returns {ok : α → Prop} {r : Except φ α}
    (h : Yields ok (fun _ => False) r) : ∃ a, r = .ok a ∧ ok a := by
  cases r with
  | ok a => exact ⟨a, rfl, h⟩
  | error f => exact h.elim

/-- A deterministic machine driven by an environment: `enabled` says which event the
environment may produce in a state, `step` what the program then does. -/
structure Machine (σ ε φ : Type*) where
  enabled : σ → ε → Prop
  step : σ → ε → Except φ σ

namespace Machine

variable (m : Machine σ ε φ)

def run (s : σ) (es : List ε) : Except φ σ := es.foldlM m.step s

@[simp] theorem run_nil (s : σ) : m.run s [] = .ok s := rfl

@[simp] theorem run_cons (s : σ) (e : ε) (es : List ε) :
    m.run s (e :: es) = (m.step s e >>= fun t => m.run t es) := rfl

theorem run_append (s : σ) (es fs : List ε) :
    m.run s (es ++ fs) = (m.run s es >>= fun t => m.run t fs) := by
  simp [run, List.foldlM_append]

/-- Every event of the run is one the environment may produce, and meets `c`, in the
state in which it happens. -/
def Legal (c : σ → ε → Prop) : σ → List ε → Prop
  | _, [] => True
  | s, e :: es => m.enabled s e ∧ c s e ∧ ∀ t, m.step s e = .ok t → Legal c t es

variable {m} {c : σ → ε → Prop}

theorem Legal.all {p : ε → Prop} {s : σ} {es : List ε} (h : m.Legal c s es) (hp : ∀ e ∈ es, p e) :
    m.Legal (fun _ e => p e) s es := by
  induction es generalizing s with
  | nil => trivial
  | cons e es ih =>
    exact ⟨h.1, hp e List.mem_cons_self, fun t ht =>
      ih (h.2.2 t ht) fun e he => hp e (List.mem_cons_of_mem _ he)⟩

theorem Legal.and {c' : σ → ε → Prop} {s : σ} {es : List ε} (h : m.Legal c s es)
    (h' : m.Legal c' s es) : m.Legal (fun s e => c s e ∧ c' s e) s es := by
  induction es generalizing s with
  | nil => trivial
  | cons e es ih => exact ⟨h.1, ⟨h.2.1, h'.2.1⟩, fun t ht => ih (h.2.2 t ht) (h'.2.2 t ht)⟩

/-- Where the invariant holds, one condition on the steps gives another. -/
theorem Legal.imp {I : σ → Prop} {c' : σ → ε → Prop}
    (hkeep : ∀ s e t, I s → m.step s e = .ok t → I t)
    (himp : ∀ s e, I s → m.enabled s e → c s e → c' s e)
    {s : σ} {es : List ε} (hi : I s) (hl : m.Legal c s es) : m.Legal c' s es := by
  induction es generalizing s with
  | nil => trivial
  | cons e es ih =>
    refine ⟨hl.1, himp s e hi hl.1 hl.2.1, ?_⟩
    intro t ht
    exact ih (hkeep s e t hi ht) (hl.2.2 t ht)

/-- Every state a legal run passes through ends a legal run. -/
theorem Legal.left {s : σ} {es fs : List ε} (h : m.Legal c s (es ++ fs)) : m.Legal c s es := by
  induction es generalizing s with
  | nil => trivial
  | cons e es ih => exact ⟨h.1, h.2.1, fun t ht => ih (h.2.2 t ht)⟩

theorem Legal.right {s t : σ} {es fs : List ε} (h : m.Legal c s (es ++ fs))
    (hr : m.run s es = .ok t) : m.Legal c t fs := by
  induction es generalizing s with
  | nil => cases hr; exact h
  | cons e es ih =>
    cases hs : m.step s e with
    | error f => simp [hs] at hr
    | ok u =>
      simp only [run_cons, hs, ok_bind] at hr
      exact ih (h.2.2 u hs) hr

/-- On a concrete run the conditions can be evaluated. -/
instance Legal.decidable [∀ s e, Decidable (m.enabled s e)] [∀ s e, Decidable (c s e)] :
    ∀ s es, Decidable (m.Legal c s es)
  | _, [] => isTrue trivial
  | s, e :: es =>
    match h : m.step s e with
    | .error _ =>
      decidable_of_iff (m.enabled s e ∧ c s e)
        ⟨fun ⟨he, hc⟩ => ⟨he, hc, fun t ht => by simp [h] at ht⟩, fun hl => ⟨hl.1, hl.2.1⟩⟩
    | .ok t =>
      have := Legal.decidable t es
      decidable_of_iff (m.enabled s e ∧ c s e ∧ m.Legal c t es)
        ⟨fun ⟨he, hc, hl⟩ => ⟨he, hc, fun u hu => by rw [h] at hu; cases hu; exact hl⟩,
          fun hl => ⟨hl.1, hl.2.1, hl.2.2 t h⟩⟩

/-- The run ends in the fault of a step for which `b` has it. -/
def FailsAt (m : Machine σ ε φ) (b : σ → ε → φ → Prop) (s : σ) (es : List ε) (f : φ) : Prop :=
  ∃ fs e t, fs ++ [e] <+: es ∧ m.run s fs = .ok t ∧ m.step t e = .error f ∧ b t e f

theorem FailsAt.cons {b : σ → ε → φ → Prop} {s t : σ} {e : ε} {es : List ε} {f : φ}
    (hs : m.step s e = .ok t) (h : m.FailsAt b t es f) : m.FailsAt b s (e :: es) f := by
  obtain ⟨fs, e', u, hfs, hrun, hfail, hb⟩ := h
  refine ⟨e :: fs, e', u, List.cons_prefix_cons.mpr ⟨rfl, hfs⟩, ?_, hfail, hb⟩
  rw [run_cons, hs]
  exact hrun

/-- Simulation rule: if every legal step keeps the relation to an abstract machine that takes the
same events, so does every legal run. It says which steps may fail, and how. -/
theorem run_refines_at {R : σ → τ → Prop} {f : τ → ε → τ} {b : σ → ε → φ → Prop}
    (hstep : ∀ s a e, R s a → m.enabled s e → c s e →
      Yields (fun t => R t (f a e)) (b s e) (m.step s e))
    {s : σ} {a : τ} {es : List ε} (hr : R s a) (hl : m.Legal c s es) :
    Yields (fun t => R t (es.foldl f a)) (m.FailsAt b s es) (m.run s es) := by
  induction es generalizing s a with
  | nil => exact hr
  | cons e es ih =>
    have h := hstep s a e hr hl.1 hl.2.1
    rw [run_cons]
    cases hs : m.step s e with
    | error why =>
      rw [hs] at h
      exact ⟨[], e, s, ⟨es, rfl⟩, rfl, hs, h⟩
    | ok t =>
      rw [hs] at h
      exact (ih h (hl.2.2 t hs)).weaken fun _ hf => hf.cons hs

theorem run_refines {R : σ → τ → Prop} {f : τ → ε → τ} {b : φ → Prop}
    (hstep : ∀ s a e, R s a → m.enabled s e → c s e →
      Yields (fun t => R t (f a e)) b (m.step s e))
    {s : σ} {a : τ} {es : List ε} (hr : R s a) (hl : m.Legal c s es) :
    Yields (fun t => R t (es.foldl f a)) b (m.run s es) := by
  apply (run_refines_at (b := fun _ _ => b) hstep hr hl).weaken
  intro _ hf
  obtain ⟨_, _, _, _, _, _, hb⟩ := hf
  exact hb

/-- Invariant rule that says which steps may fail, and how. -/
theorem run_keeps_at {I : σ → Prop} {b : σ → ε → φ → Prop}
    (hstep : ∀ s e, I s → m.enabled s e → c s e → Yields I (b s e) (m.step s e))
    {s : σ} {es : List ε} (hi : I s) (hl : m.Legal c s es) :
    Yields I (m.FailsAt b s es) (m.run s es) :=
  run_refines_at (R := fun s (_ : Unit) => I s) (f := fun a _ => a) (a := ())
    (fun s _ e h he hc => hstep s e h he hc) hi hl

/-- Invariant rule. -/
theorem run_keeps {I : σ → Prop} {b : φ → Prop}
    (hstep : ∀ s e, I s → m.enabled s e → c s e → Yields I b (m.step s e))
    {s : σ} {es : List ε} (hi : I s) (hl : m.Legal c s es) :
    Yields I b (m.run s es) :=
  run_refines (R := fun s (_ : Unit) => I s) (f := fun a _ => a) (a := ())
    (fun s _ e h he hc => hstep s e h he hc) hi hl

/-- Invariant rule, for a relation of the state to the events so far. -/
theorem run_history {R : σ → List ε → Prop} {b : φ → Prop}
    (hstep : ∀ s past e, R s past → m.enabled s e → c s e →
      Yields (fun t => R t (past ++ [e])) b (m.step s e))
    {s : σ} {past es : List ε} (hr : R s past) (hl : m.Legal c s es) :
    Yields (fun t => R t (past ++ es)) b (m.run s es) := by
  induction es generalizing s past with
  | nil => simpa using hr
  | cons e es ih =>
    have h := hstep s past e hr hl.1 hl.2.1
    rw [run_cons]
    cases hs : m.step s e with
    | error why =>
      rw [hs] at h
      exact h
    | ok t =>
      rw [hs] at h
      have hrest := ih h (hl.2.2 t hs)
      simpa using hrest

/-- The run is legal, and ends in `t`. -/
def Reaches (m : Machine σ ε φ) (c : σ → ε → Prop) (s : σ) (es : List ε) (t : σ) : Prop :=
  m.Legal c s es ∧ m.run s es = .ok t

theorem Reaches.refl (s : σ) : m.Reaches c s [] s := ⟨trivial, rfl⟩

theorem Reaches.cons {s t u : σ} {e : ε} {es : List ε} (he : m.enabled s e) (hc : c s e)
    (hstep : m.step s e = .ok t) (h : m.Reaches c t es u) : m.Reaches c s (e :: es) u := by
  refine ⟨⟨he, hc, fun v hv => ?_⟩, ?_⟩
  · cases hstep.symm.trans hv
    exact h.1
  · rw [run_cons, hstep, ok_bind]
    exact h.2

theorem Reaches.trans {s t u : σ} {es fs : List ε} (h : m.Reaches c s es t)
    (hn : m.Reaches c t fs u) : m.Reaches c s (es ++ fs) u := by
  induction es generalizing s with
  | nil =>
    cases h.2
    exact hn
  | cons e es ih =>
    obtain ⟨v, hstep, hrun⟩ := bind_ok h.2
    exact .cons h.1.1 h.1.2.1 hstep (ih ⟨h.1.2.2 v hstep, hrun⟩)

/-- Invariant rule, for runs that return. -/
theorem Reaches.keeps {I : σ → Prop}
    (hstep : ∀ s e t, I s → m.enabled s e → c s e → m.step s e = .ok t → I t)
    {s t : σ} {es : List ε} (h : m.Reaches c s es t) (hi : I s) : I t := by
  induction es generalizing s with
  | nil =>
    cases h.2
    exact hi
  | cons e es ih =>
    obtain ⟨u, hu, hr⟩ := bind_ok h.2
    exact ih ⟨h.1.2.2 u hu, hr⟩ (hstep s e u hi h.1.1 h.1.2.1 hu)

/-- Where a step returns only if it meets `c`, a run that returns meets it throughout. -/
theorem Legal.of_run {I : σ → Prop}
    (hstep : ∀ s e t, I s → m.enabled s e → m.step s e = .ok t → c s e ∧ I t)
    {s t : σ} {es : List ε} (hi : I s) (hl : m.Legal (fun _ _ => True) s es)
    (hr : m.run s es = .ok t) : m.Legal c s es := by
  induction es generalizing s with
  | nil => trivial
  | cons e es ih =>
    rw [run_cons] at hr
    obtain ⟨u, hu, hr⟩ := bind_ok hr
    obtain ⟨hc, hiu⟩ := hstep s e u hi hl.1 hu
    refine ⟨hl.1, hc, fun v hv => ?_⟩
    obtain rfl : u = v := Except.ok.inj (hu.symm.trans hv)
    exact ih hiu (hl.2.2 u hu) hr

/-- Where one step keeps `G` exactly when it meets `c`, a run passes only through such
states exactly when all of its steps meet `c`. -/
theorem Legal.iff_run {I G : σ → Prop}
    (hstep : ∀ s e, I s → G s → m.enabled s e →
      (∀ t, m.step s e = .ok t → I t ∧ (G t ↔ c s e)) ∧ ∀ f, m.step s e = .error f → c s e)
    {s : σ} {es : List ε} (hi : I s) (hg : G s) (hl : m.Legal (fun _ _ => True) s es) :
    m.Legal c s es ↔ ∀ fs t, fs <+: es → m.run s fs = .ok t → G t := by
  induction es generalizing s with
  | nil =>
    refine ⟨fun _ fs t hf hr => ?_, fun _ => trivial⟩
    rw [List.prefix_nil] at hf
    subst hf
    cases hr
    exact hg
  | cons e es ih =>
    obtain ⟨hok, hfault⟩ := hstep s e hi hg hl.1
    constructor
    · intro hc fs t hf hr
      cases fs with
      | nil => cases hr; exact hg
      | cons e' fs =>
        obtain ⟨rfl, hfs⟩ := List.cons_prefix_cons.mp hf
        cases hs : m.step s e' with
        | error f => simp [hs] at hr
        | ok u =>
          obtain ⟨hiu, hgu⟩ := hok u hs
          simp only [run_cons, hs, ok_bind] at hr
          exact (ih hiu (hgu.mpr hc.2.1) (hl.2.2 u hs)).mp (hc.2.2 u hs) fs t hfs hr
    · intro hall
      have hlater : ∀ u, m.step s e = .ok u → ∀ fs t, fs <+: es → m.run u fs = .ok t → G t :=
        fun u hu fs t hf hr => hall (e :: fs) t (List.cons_prefix_cons.mpr ⟨rfl, hf⟩) (by
          simp only [run_cons, hu, ok_bind, hr])
      refine ⟨hl.1, ?_, fun u hu => ?_⟩
      · cases hs : m.step s e with
        | error f => exact hfault f hs
        | ok u => exact (hok u hs).2.mp (hlater u hs [] u List.nil_prefix rfl)
      · exact (ih (hok u hu).1 (hlater u hu [] u List.nil_prefix rfl) (hl.2.2 u hu)).mpr
          (hlater u hu)

/-- Where a step ends in `G` exactly when it starts there and meets `c`, so does a run. -/
theorem Legal.iff_ends {I G : σ → Prop} {p : σ → ε → Prop}
    (hstep : ∀ s e t, I s → m.enabled s e → p s e → m.step s e = .ok t →
      I t ∧ (G t ↔ G s ∧ c s e))
    {s t : σ} {es : List ε} (hi : I s) (h : m.Reaches p s es t) :
    G t ↔ G s ∧ m.Legal c s es := by
  induction es generalizing s with
  | nil =>
    cases h.2
    exact ⟨fun hg => ⟨hg, trivial⟩, And.left⟩
  | cons e es ih =>
    obtain ⟨u, hu, hr⟩ := bind_ok h.2
    obtain ⟨hiu, hgu⟩ := hstep s e u hi h.1.1 h.1.2.1 hu
    rw [ih hiu ⟨h.1.2.2 u hu, hr⟩, hgu]
    constructor
    · intro hleft
      refine ⟨hleft.1.1, h.1.1, hleft.1.2, fun v hv => ?_⟩
      obtain rfl : u = v := Except.ok.inj (hu.symm.trans hv)
      exact hleft.2
    · intro hright
      exact ⟨⟨hright.1, hright.2.2.1⟩, hright.2.2.2 u hu⟩

/-- Where a step that meets `c` keeps the invariant, and any other goes wrong, the runs that go
well all the way are those whose steps all meet `c`. -/
theorem Legal.iff_good {I Q : σ → Prop} {b : φ → Prop}
    (hkeep : ∀ s e, I s → m.enabled s e → c s e → Yields I b (m.step s e))
    (hfail : ∀ s e, I s → m.enabled s e → ¬c s e → ¬Yields Q b (m.step s e))
    (hq : ∀ s, I s → Q s) {s : σ} {es : List ε} (hi : I s)
    (hl : m.Legal (fun _ _ => True) s es) :
    m.Legal c s es ↔ ∀ fs, fs <+: es → Yields Q b (m.run s fs) := by
  constructor
  · intro hc fs hf
    obtain ⟨gs, rfl⟩ := hf
    exact (run_keeps hkeep hi hc.left).mono hq
  · intro hall
    induction es generalizing s with
    | nil => trivial
    | cons e es ih =>
      have hfirst : Yields Q b (m.step s e) := by
        have hrun := hall [e] (List.cons_prefix_cons.mpr ⟨rfl, List.nil_prefix⟩)
        rw [run_cons] at hrun
        cases hs : m.step s e with
        | error f =>
          rw [hs] at hrun
          exact hrun
        | ok t =>
          rw [hs] at hrun
          exact hrun
      have hc : c s e := by
        by_contra hc
        exact hfail s e hi hl.1 hc hfirst
      refine ⟨hl.1, hc, fun t ht => ?_⟩
      apply ih ((hkeep s e hi hl.1 hc).of_ok ht) (hl.2.2 t ht)
      intro fs hf
      have hrun := hall (e :: fs) (List.cons_prefix_cons.mpr ⟨rfl, hf⟩)
      rw [run_cons, ht] at hrun
      exact hrun

/-- A step that does not meet `c` may go wrong by a fault that `b` does not allow. -/
theorem Legal.iff_yields {I Q : σ → Prop} {b : φ → Prop}
    (hkeep : ∀ s e, I s → m.enabled s e → c s e → Yields I b (m.step s e))
    (hfail : ∀ s e, I s → m.enabled s e → ¬c s e → ∃ f, m.step s e = .error f ∧ ¬b f)
    (hq : ∀ s, I s → Q s) {s : σ} {es : List ε} (hi : I s)
    (hl : m.Legal (fun _ _ => True) s es) :
    m.Legal c s es ↔ ∀ fs, fs <+: es → Yields Q b (m.run s fs) := by
  refine Legal.iff_good hkeep ?_ hq hi hl
  intro s e hi he hc hyields
  obtain ⟨f, hf, hbad⟩ := hfail s e hi he hc
  rw [hf] at hyields
  exact hbad hyields

end Machine

end Muduo.Lib
