import Muduo.Examples.DancingLinks

namespace Muduo.Examples
open Muduo.Lib Incidence SudokuSolver

variable {ο : Type*} {M : Incidence ο} {order : Nat → List Nat} {K : List Nat} {t t' : Nodes}
  {s s' : SudokuSolver} {c x depth : Nat} {o : ο}

/-- The column that is branched on is one of those that are left. -/
theorem minColumn_mem {hs done rest : List Nat} {root c fuel : Nat} {minSize : Int}
    (hring : Ring t.right t.left (root :: hs)) (hc : c ∈ hs) (hl : hs = done ++ rest)
    (hfuel : rest.length < fuel) :
    ∃ d ∈ hs, t.minColumn root fuel (rest.headD root) c minSize = some d := by
  induction rest generalizing done c fuel minSize with
  | nil =>
    obtain ⟨fuel, rfl⟩ : ∃ n, fuel = n + 1 := ⟨fuel - 1, by simp at hfuel; omega⟩
    exact ⟨c, hc, if_pos rfl⟩
  | cons cc rest ih =>
    obtain ⟨fuel, rfl⟩ : ∃ n, fuel = n + 1 := ⟨fuel - 1, by simp at hfuel; omega⟩
    have hcc : cc ∈ hs := by rw [hl]; simp
    have hne : cc ≠ root := fun he => (List.nodup_cons.mp hring.1).1 (he ▸ hcc)
    have hl' : hs = (done ++ [cc]) ++ rest := by simpa using hl
    have hnext := hring.next_eq hl
    have hlen : rest.length < fuel := by simpa using hfuel
    rw [List.headD_cons, Nodes.minColumn, if_neg hne, hnext]
    split
    · split
      · exact ⟨cc, hcc, rfl⟩
      · exact ih hcc hl' hlen
    · exact ih hc hl' hlen

theorem getMinColumn_mem (h : Woven M order K t) (hne : M.uncovered K ≠ []) :
    ∃ c ∈ M.uncovered K, t.getMinColumn M.root = some c := by
  cases hl : M.uncovered K with
  | nil => exact absurd hl hne
  | cons c rest =>
    have hring := h.heads
    rw [hl] at hring
    have hfirst : t.right M.root = c := hring.2.next_eq
    have hnone : c :: rest = [] ++ c :: rest := rfl
    have hone : c :: rest = [c] ++ rest := rfl
    have hnext : t.right c = rest.headD M.root := hring.next_eq hnone
    have hlen : rest.length < kMaxNodes := by
      have hs : (M.uncovered K).length ≤ M.heads.length := List.length_filter_le ..
      have hm := M.small
      rw [hl] at hs
      simp only [List.cons_append, List.length_cons, List.length_append] at hm hs
      omega
    rw [Nodes.getMinColumn, hfirst, hnext]
    split
    · exact minColumn_mem hring List.mem_cons_self hone hlen
    · exact ⟨c, List.mem_cons_self, rfl⟩

/-- The columns of a row that can still be chosen are all left. -/
theorem others_open (ho : o ∈ M.options) (hx : x ∈ M.row o) (hav : M.avoids K o) :
    ∀ y ∈ M.others x, M.col y ∈ M.uncovered (M.col x :: K) := by
  intro y hy
  have hyo : y ∈ M.row o := (row_perm ho hx).mem_iff.mp (List.mem_cons_of_mem x hy)
  refine mem_uncovered.mpr ⟨M.col_row o ho y hyo, List.mem_cons.not.mpr (not_or.mpr ⟨?_, ?_⟩)⟩
  · intro he
    exact not_mem_others ho hx (same_of_col ho hyo hx he ▸ hy)
  · exact fun hm => hav _ hm (hits_of_mem hyo)

/-- What becomes of a row that is tried. -/
theorem tryRows_row {solve : SudokuSolver → Option (Bool × SudokuSolver)} {fuel : Nat} (hne : x ≠ c)
    (hw : walk Nodes.right (fun j t => t.cover (t.col j)) x kMaxNodes (s.nodes.right x) s.nodes =
      some t') :
    tryRows solve c (fuel + 1) x s =
      (solve { s with stack := s.stack ++ [x], nodes := t' }).bind fun r =>
        if r.1 then some (true, r.2) else
          (walk Nodes.left (fun j t => t.uncover (t.col j)) x kMaxNodes (r.2.nodes.left x)
            r.2.nodes).bind fun nodes => tryRows solve c fuel (nodes.down x)
              { r.2 with stack := r.2.stack.dropLast, nodes := nodes } := by
  rw [tryRows, if_neg hne, hw]
  rfl

/-- A call of `solve` that fails leaves everything as it was. -/
def Restores (M : Incidence ο) (order : Nat → List Nat) (depth : Nat) : Prop :=
  ∀ K (s s' : SudokuSolver), s.root = M.root → Woven M order K s.nodes →
    s.solve depth = some (false, s') → s' = s

theorem Restores.tryRows (hsolve : Restores M order depth) {done rest : List Nat} {fuel : Nat}
    (hroot : s.root = M.root) (h : Woven M order (c :: K) s.nodes)
    (hring : Ring s.nodes.down s.nodes.up (c :: M.ordered order K c))
    (hl : M.ordered order K c = done ++ rest)
    (htry : SudokuSolver.tryRows (solve depth) c fuel (rest.headD c) s = some (false, s')) :
    s' = s := by
  induction rest generalizing done fuel with
  | nil =>
    cases fuel with
    | zero => cases htry
    | succ fuel =>
      rw [List.headD_nil, SudokuSolver.tryRows, if_pos rfl] at htry
      cases htry
      rfl
  | cons x rest ih =>
    cases fuel with
    | zero => cases htry
    | succ fuel =>
      have hx : x ∈ M.ordered order K c := by rw [hl]; simp
      have hne : x ≠ c := fun he => (List.nodup_cons.mp hring.1).1 (he ▸ hx)
      obtain ⟨rfl, o, ho, hxo, hav⟩ := mem_column.mp (mem_column_of_ordered hx)
      obtain ⟨t', hw, hwoven, hback, -⟩ := h.coverRow ho hxo (others_open ho hxo hav)
      rw [List.headD_cons, tryRows_row hne hw] at htry
      obtain ⟨⟨b, u⟩, hu, htry⟩ := Option.bind_eq_some_iff.mp htry
      cases b with
      | true => cases htry
      | false =>
        -- the row's own call found nothing, and its covers are taken back
        obtain rfl := hsolve _ { s with stack := s.stack ++ [x], nodes := t' } u hroot hwoven hu
        have hl' : M.ordered order K (M.col x) = (done ++ [x]) ++ rest := by simpa using hl
        simp only [Bool.false_eq_true, if_false, hback, Option.bind_some, List.dropLast_concat,
          hring.next_eq hl] at htry
        exact ih hl' htry

theorem solve_restores (M : Incidence ο) (order : Nat → List Nat) (depth : Nat) :
    Restores M order depth := by
  induction depth with
  | zero =>
    intro K s s' hroot h hsolve
    cases hsolve
  | succ depth ih =>
    intro K s s' hroot h hsolve
    rw [solve] at hsolve
    split at hsolve
    · obtain ⟨inout, -, hsolve⟩ := Option.bind_eq_some_iff.mp hsolve
      cases hsolve
    · next hleft =>
      have hne : M.uncovered K ≠ [] := by
        intro hnone
        have hheads := h.heads
        rw [hnone, ← hroot] at hheads
        exact hleft (hheads.alone.mpr rfl)
      obtain ⟨c, hc, hmin⟩ := getMinColumn_mem h hne
      obtain ⟨t', hcover, hwoven, hback, hring, -⟩ := h.cover hc
      have hfirst : t'.down c = (M.ordered order K c).headD c := hring.2.next_eq
      rw [← hroot] at hmin
      simp only [hmin, Option.bind_eq_bind, Option.bind_some, hcover, hfirst] at hsolve
      obtain ⟨⟨b, u⟩, hu, hsolve⟩ := Option.bind_eq_some_iff.mp hsolve
      cases b with
      | true => cases hsolve
      | false =>
        have hnone : M.ordered order K c = [] ++ M.ordered order K c := rfl
        obtain rfl := ih.tryRows (s := { s with nodes := t' }) hroot hwoven hring hnone hu
        simp only [Bool.false_eq_true, if_false, hback, Option.bind_some] at hsolve
        cases hsolve
        rfl

/-- Every column can be reached from the root when it comes to be covered. -/
def StillLinked (root : Nat) : Nodes → List Nat → Prop
  | _, [] => True
  | t, c :: cs => c ≠ root ∧ (∃ n, t.right^[n] root = c) ∧
      ∀ t', t.cover c = some t' → StillLinked root t' cs

theorem Woven.reached (h : Woven M order K t) (hne : c ≠ M.root) {n : Nat}
    (hn : t.right^[n] M.root = c) : c ∈ M.uncovered K := by
  have hring : ∀ n, t.right^[n] M.root ∈ M.root :: M.uncovered K := by
    intro n
    induction n with
    | zero => exact List.mem_cons_self
    | succ n ih =>
      rw [Function.iterate_succ_apply']
      exact h.heads.next_mem ih
  exact (List.mem_cons.mp (hn ▸ hring n)).resolve_left hne

theorem Woven.covers (h : Woven M order K t) {cs : List Nat} (hcs : StillLinked M.root t cs) :
    ∃ t', cs.foldlM Nodes.cover t = some t' ∧ cs.reverse.foldlM Nodes.uncover t' = some t := by
  induction cs generalizing K t with
  | nil => exact ⟨t, rfl, rfl⟩
  | cons c cs ih =>
    obtain ⟨hne, ⟨n, hn⟩, hcs⟩ := hcs
    obtain ⟨u, hu, hwoven, hback, -⟩ := h.cover (h.reached hne hn)
    obtain ⟨t', ht, hall⟩ := ih hwoven (hcs u hu)
    refine ⟨t', ?_, ?_⟩
    · rw [List.foldlM_cons, hu]
      exact ht
    · rw [List.reverse_cons, List.foldlM_append, hall]
      exact (bind_pure _).trans hback

/-- Whatever the nodes are named and the sizes are, covers are taken back without a trace. -/
theorem cover_uncover_inverse (h : Woven M order K t) :
    (∀ c ∈ M.uncovered K, ∃ t', t.cover c = some t' ∧ t'.uncover c = some t) ∧
    (∀ cs, StillLinked M.root t cs →
      ∃ t', cs.foldlM Nodes.cover t = some t' ∧ cs.reverse.foldlM Nodes.uncover t' = some t) ∧
    ∀ depth (s s' : SudokuSolver), s.nodes = t → s.root = M.root →
      s.solve depth = some (false, s') → s' = s := by
  refine ⟨?_, fun cs hcs => h.covers hcs, ?_⟩
  · intro c hc
    obtain ⟨t', hcover, -, hback, -⟩ := h.cover hc
    exact ⟨t', hcover, hback⟩
  · intro depth s s' hnodes hroot hsolve
    exact solve_restores M order depth K s s' hroot (hnodes ▸ h) hsolve

/-- Two rows, which the two columns have in opposite orders. -/
def sampleIncidence : Incidence (List Nat) where
  root := 0
  heads := [1, 2]
  options := [[3, 4], [5, 6]]
  row o := o
  col x := [0, 1, 2, 1, 2, 1, 2].getD x 0
  name x := x
  nodup := by decide
  col_head := by decide
  col_row := by decide
  distinct := by decide
  small := by decide

def sampleNodes : Nodes where
  left x := [2, 0, 1, 4, 3, 6, 5].getD x 0
  right x := [1, 2, 0, 4, 3, 6, 5].getD x 0
  up x := [0, 5, 4, 1, 6, 3, 2].getD x 0
  down x := [0, 3, 6, 5, 2, 1, 4].getD x 0
  col x := [0, 1, 2, 1, 2, 1, 2].getD x 0
  name x := x
  size x := [0, 2, 2].getD x 0

def sampleOrder (c : Nat) : List Nat := [[], [3, 5], [6, 4]].getD c []

theorem sample_woven : Woven sampleIncidence sampleOrder [] sampleNodes where
  orders := by decide
  heads := ⟨by decide, ⟨rfl, rfl⟩, ⟨rfl, rfl⟩, rfl, rfl⟩
  rows := by
    refine List.forall_mem_cons.mpr ⟨?_, List.forall_mem_singleton.mpr ?_⟩
    · exact ⟨by decide, ⟨rfl, rfl⟩, rfl, rfl⟩
    · exact ⟨by decide, ⟨rfl, rfl⟩, rfl, rfl⟩
  columns := by
    refine List.forall_mem_cons.mpr ⟨?_, List.forall_mem_singleton.mpr ?_⟩
    · exact ⟨by decide, ⟨rfl, rfl⟩, ⟨rfl, rfl⟩, rfl, rfl⟩
    · exact ⟨by decide, ⟨rfl, rfl⟩, ⟨rfl, rfl⟩, rfl, rfl⟩
  col _ _ _ _ := rfl

theorem cover_uncover_inverse_sample :
    ∃ t, [2, 1].foldlM Nodes.cover sampleNodes = some t ∧
      [1, 2].foldlM Nodes.uncover t = some sampleNodes := by
  apply (cover_uncover_inverse sample_woven).2.1 [2, 1]
  refine ⟨by decide, ⟨2, rfl⟩, fun t ht => ?_⟩
  cases ht
  exact ⟨by decide, ⟨1, rfl⟩, fun _ _ => trivial⟩

end Muduo.Examples
