import Mathlib.Data.List.Forall2
import Mathlib.Data.List.Perm.Subperm
import Muduo.Examples.Backtracking

namespace Muduo.Examples
open Muduo.Lib Incidence
open Function (update)

/-- A value for an empty cell. -/
structure Candidate where
  cell : Nat
  val : Nat
  deriving DecidableEq, Repr

namespace Candidate
open SudokuSolver

/-- The columns that the row of a candidate has nodes in. -/
def names (o : Candidate) : List Nat :=
  [o.cell, getRowCol (rowOf o.cell) o.val, getColCol (colOf o.cell) o.val,
    getBoxCol (boxOf o.cell) o.val]

def legal (o : Candidate) : Prop := o.cell < kCells ∧ 1 ≤ o.val ∧ o.val < 10

end Candidate

def place (board : Nat → Int) (o : Candidate) : Nat → Int := update board o.cell o.val

/-- The rows of a problem are those of candidates. -/
structure Encodes (M : Incidence Candidate) : Prop where
  names : ∀ o ∈ M.options, (M.row o).map M.name = o.names
  legal : ∀ o ∈ M.options, o.legal

section

open SudokuSolver

variable {M : Incidence Candidate} {K : List Nat} {t : Nodes} {x y n : Nat} {o : Candidate}

theorem readRow_cell {cell val : Int} {i : Nat} (hx : t.name x = i ∧ i < 100) (hy : t.right x = y)
    (h : cell = -1 ∨ val = -1) :
    t.readRow (n + 1) x cell val = t.readRow n y i val := by
  obtain ⟨rfl, hlt⟩ := hx
  rw [Nodes.readRow, if_pos h, if_pos hlt, hy]

theorem readRow_val {cell val : Int} {v : Nat} (hx : 100 ≤ t.name x ∧ t.name x % 10 = v)
    (hy : t.right x = y) (h : cell = -1 ∨ val = -1) :
    t.readRow (n + 1) x cell val = t.readRow n y cell v := by
  obtain ⟨hge, rfl⟩ := hx
  rw [Nodes.readRow, if_pos h, if_neg (by omega), hy]
  rfl

theorem readRow_done {i v : Nat} : t.readRow (n + 1) x i v = some ((i : Int), (v : Int)) := by
  rw [Nodes.readRow, if_neg (by omega)]

/-- Cell and value are read off a row from whichever of its nodes the search chose. -/
theorem readRow_eq (hM : Encodes M) (h : Shows M K t) (ho : o ∈ M.options) (hx : x ∈ M.row o) :
    t.readRow kMaxNodes x (-1) (-1) = some ((o.cell : Int), (o.val : Int)) := by
  obtain ⟨hcell, hval, hten⟩ := hM.legal o ho
  have hnames := hM.names o ho
  have hring := h.rows o ho
  rw [Candidate.names] at hnames
  obtain ⟨n0, l, hl, h0, hnames⟩ := List.map_eq_cons_iff.mp hnames
  obtain ⟨nr, l, rfl, hr, hnames⟩ := List.map_eq_cons_iff.mp hnames
  obtain ⟨nc, l, rfl, hc, hnames⟩ := List.map_eq_cons_iff.mp hnames
  obtain ⟨nb, l, rfl, hb, hnames⟩ := List.map_eq_cons_iff.mp hnames
  obtain rfl := List.map_eq_nil_iff.mp hnames
  rw [hl] at hring hx
  obtain ⟨-, ⟨r0, -⟩, ⟨rr, -⟩, ⟨rc, -⟩, rb, -⟩ := hring
  rw [← h.name] at h0 hr hc hb
  have c0 : t.name n0 = o.cell ∧ o.cell < 100 := ⟨h0, hcell.trans (by decide)⟩
  have vr : 100 ≤ t.name nr ∧ t.name nr % 10 = o.val := by
    rw [hr, getRowCol, kRow]; omega
  have vc : 100 ≤ t.name nc ∧ t.name nc % 10 = o.val := by
    rw [hc, getColCol, kCol]; omega
  have vb : 100 ≤ t.name nb ∧ t.name nb % 10 = o.val := by
    rw [hb, getBoxCol, kBox]; omega
  have hk : kMaxNodes = 3236 + 5 := rfl
  rw [hk]
  simp only [List.mem_cons, List.not_mem_nil, or_false] at hx
  rcases hx with rfl | rfl | rfl | rfl
  · rw [readRow_cell c0 r0 (.inl rfl), readRow_val vr rr (.inr rfl), readRow_done]
  · rw [readRow_val vr rr (.inl rfl), readRow_val vc rc (.inl rfl), readRow_val vb rb (.inl rfl),
      readRow_cell c0 r0 (.inl rfl), readRow_done]
  · rw [readRow_val vc rc (.inl rfl), readRow_val vb rb (.inl rfl), readRow_cell c0 r0 (.inl rfl),
      readRow_done]
  · rw [readRow_val vb rb (.inl rfl), readRow_cell c0 r0 (.inl rfl), readRow_done]

/-- The nodes on the stack lie in the rows of the candidates that were chosen. -/
def Picked (M : Incidence Candidate) (stack : List Nat) (picks : List Candidate) : Prop :=
  List.Forall₂ (fun x o => o ∈ M.options ∧ x ∈ M.row o) stack picks

theorem readBack_eq (hM : Encodes M) (h : Shows M K t) {stack : List Nat} {picks : List Candidate}
    (hp : Picked M stack picks) (board : Nat → Int) :
    t.readBack board stack = some (picks.foldl place board) := by
  rw [Nodes.readBack]
  induction hp generalizing board with
  | nil => rfl
  | cons hx _ ih =>
    rw [List.foldlM_cons, readRow_eq hM h hx.1 hx.2]
    exact ih _

/-- The columns that are left, as the items of an exact cover. -/
def items (M : Incidence Candidate) (K : List Nat) : Set Nat := {c | c ∈ M.uncovered K}

def Solves (M : Incidence Candidate) (K : List Nat) (chosen : Set Candidate) : Prop :=
  ExactCover M.hits {o | o ∈ M.options} (items M K) chosen

/-- What `solve` has to say about the columns that are left: `true` with more candidates that
cover them, read back into the board, or `false` and everything as it was. -/
def Settles (M : Incidence Candidate) (K : List Nat) (picks : List Candidate) (s : SudokuSolver) :
    Bool × SudokuSolver → Prop
  | (true, s') => ∃ more, s'.inout = (picks ++ more).foldl place s.inout ∧ Solves M K {o | o ∈ more}
  | (false, s') => s' = s ∧ ∀ chosen, ¬Solves M K chosen

/-- `solve` settles what it is called on, when no more than `depth` columns are left. -/
def Searches (M : Incidence Candidate) (depth : Nat) : Prop :=
  ∀ K picks s, s.root = M.root → Shows M K s.nodes → Picked M s.stack picks →
    (M.uncovered K).length < depth → ∃ r, s.solve depth = some r ∧ Settles M K picks s r

variable {c : Nat}

theorem items_chosen (ho : o ∈ M.options) (hx : x ∈ M.row o) :
    items M (((M.others x).map M.col).reverse ++ M.col x :: K) = without M.hits (items M K) o := by
  ext d
  have hhits : M.hits o d ↔ d = M.col x ∨ d ∈ (M.others x).map M.col := by
    rw [hits, ← ((row_perm ho hx).map M.col).mem_iff, List.map_cons, List.mem_cons]
  simp only [items, without, Set.mem_ofPred_eq, mem_uncovered, List.mem_append, List.mem_reverse,
    List.mem_cons, hhits]
  tauto

theorem uncovered_lt (hc : c ∈ M.uncovered K) (js : List Nat) :
    (M.uncovered (js ++ c :: K)).length < (M.uncovered K).length := by
  have hheads : M.heads.Nodup := (List.nodup_append.mp M.nodup).1.of_cons
  have hnew : c ∉ M.uncovered (js ++ c :: K) := by
    rw [mem_uncovered]
    simp
  have hsub : c :: M.uncovered (js ++ c :: K) ⊆ M.uncovered K := by
    rintro d hd
    rcases List.mem_cons.mp hd with rfl | hd
    · exact hc
    · rw [mem_uncovered] at hd ⊢
      simp only [List.mem_append, List.mem_cons] at hd
      tauto
  exact (List.subperm_of_subset (List.nodup_cons.mpr ⟨hnew, hheads.filter _⟩) hsub).length_le

/-- The rows of a column are tried one after the other. -/
theorem tryRows_settles {depth : Nat} (hsolve : Searches M depth) {done rest : List Nat}
    {picks : List Candidate} {s : SudokuSolver} {fuel : Nat} (hroot : s.root = M.root)
    (h : Shows M (c :: K) s.nodes) (hring : Ring s.nodes.down s.nodes.up (c :: M.column K c))
    (hp : Picked M s.stack picks) (hc : c ∈ M.uncovered K)
    (hdepth : (M.uncovered K).length ≤ depth) (hl : M.column K c = done ++ rest)
    (hfuel : rest.length < fuel) :
    ∃ b s', tryRows (solve depth) c fuel (rest.headD c) s = some (b, s') ∧
      (b = true → Settles M K picks s (true, s')) ∧
      (b = false → s' = s ∧ ∀ x ∈ rest, ∀ o ∈ M.options, x ∈ M.row o →
        ∀ chosen, ¬ExactCover M.hits {o | o ∈ M.options} (without M.hits (items M K) o) chosen) := by
  induction rest generalizing done fuel with
  | nil =>
    obtain ⟨fuel, rfl⟩ : ∃ n, fuel = n + 1 := ⟨fuel - 1, by simp at hfuel; omega⟩
    exact ⟨false, s, if_pos rfl, nofun, fun _ => ⟨rfl, nofun⟩⟩
  | cons x rest ih =>
    obtain ⟨fuel, rfl⟩ : ∃ n, fuel = n + 1 := ⟨fuel - 1, by simp at hfuel; omega⟩
    have hx : x ∈ M.column K c := by rw [hl]; simp
    obtain ⟨rfl, o, ho, hxo, hav⟩ := mem_column.mp hx
    have hne : x ≠ M.col x := fun he => (List.nodup_cons.mp hring.1).1 (he ▸ hx)
    obtain ⟨t', hw, hs, hback⟩ := h.coverRow ho hxo (others_open ho hxo hav)
    have hp' : Picked M (s.stack ++ [x]) (picks ++ [o]) :=
      List.rel_append hp (.cons ⟨ho, hxo⟩ .nil)
    obtain ⟨⟨b, s'⟩, hr, hset⟩ := hsolve _ (picks ++ [o])
      { s with stack := s.stack ++ [x], nodes := t' } hroot hs hp'
      ((uncovered_lt hc _).trans_le hdepth)
    have hstart : tryRows (solve depth) (M.col x) (fuel + 1) x s =
        if b then some (true, s') else
          (walk Nodes.left (fun j t => t.uncover (t.col j)) x kMaxNodes (s'.nodes.left x)
            s'.nodes).bind fun nodes => tryRows (solve depth) (M.col x) fuel (nodes.down x)
              { s' with stack := s'.stack.dropLast, nodes := nodes } := by
      rw [tryRows_row hne hw, hr]
      rfl
    rw [List.headD_cons, hstart]
    cases b with
    | true =>
      obtain ⟨more, hinout, hcover⟩ := hset
      refine ⟨true, s', rfl, fun _ => ⟨o :: more, ?_, ?_⟩, nofun⟩
      · rw [List.append_cons]
        exact hinout
      · have hin : ∀ d, M.hits o d → d ∈ items M K := by
          intro d hd
          obtain ⟨y, hy, rfl⟩ := List.mem_map.mp hd
          exact mem_uncovered.mpr ⟨M.col_row o ho y hy, fun hm => hav _ hm hd⟩
        rw [Solves, items_chosen ho hxo] at hcover
        have he := hcover.extend ho hin
        rwa [show insert o {p | p ∈ more} = {p | p ∈ o :: more} by ext p; simp] at he
    | false =>
      obtain ⟨rfl, hnone⟩ := hset
      have hl' : M.column K (M.col x) = (done ++ [x]) ++ rest := by simpa using hl
      obtain ⟨b, s', ht, htrue, hfalse⟩ := ih hl' (by simpa using hfuel)
      refine ⟨b, s', ?_, htrue, fun hb => ⟨(hfalse hb).1, ?_⟩⟩
      · simp only [Bool.false_eq_true, if_false, hback, Option.bind_some, List.dropLast_concat]
        rw [hring.next_eq hl]
        exact ht
      · refine List.forall_mem_cons.mpr ⟨?_, (hfalse hb).2⟩
        intro p hp hxp chosen hcover
        obtain rfl := row_unique ho hp hxo hxp
        refine hnone chosen ?_
        rwa [Solves, items_chosen ho hxo]

theorem solve_settles (hM : Encodes M) (depth : Nat) : Searches M depth := by
  induction depth with
  | zero => exact fun _ _ _ _ _ _ hlt => absurd hlt (Nat.not_lt_zero _)
  | succ depth ih =>
    intro K picks s hroot h hp hlt
    have hheads := h.heads
    rw [← hroot] at hheads
    rw [solve]
    by_cases hleft : s.nodes.left s.root = s.root
    · have hnone : M.uncovered K = [] := hheads.alone.mp hleft
      have hitems : items M K = ∅ := by rw [items, hnone]; simp
      rw [if_pos hleft, readBack_eq hM h hp]
      refine ⟨_, rfl, [], by rw [List.append_nil], ?_⟩
      rw [Solves, hitems]
      simpa using exactCover_empty
    · have hne : M.uncovered K ≠ [] := fun he => hleft (hheads.alone.mpr he)
      obtain ⟨c, hc, hmin⟩ := getMinColumn_mem h.woven hne
      rw [← hroot] at hmin
      obtain ⟨t', hcover, hs, hback, hring⟩ := h.cover hc
      have hl : M.column K c = [] ++ M.column K c := rfl
      obtain ⟨b, s', ht, htrue, hfalse⟩ := tryRows_settles ih (s := { s with nodes := t' }) hroot
        hs hring hp hc (Nat.le_of_lt_succ hlt) hl column_length
      have hfirst : t'.down c = (M.column K c).headD c := hring.2.next_eq
      simp only [if_neg hleft, hmin, hcover, Option.bind_eq_bind, Option.bind_some, hfirst, ht]
      cases b with
      | true => exact ⟨(true, s'), rfl, htrue rfl⟩
      | false =>
        obtain ⟨rfl, hrows⟩ := hfalse rfl
        refine ⟨(false, s), by simp [hback], rfl, ?_⟩
        intro chosen hsolves
        -- a cover settles `c` by one of the rows that were tried
        obtain ⟨o, ho, hhit, hin, hrest⟩ := hsolves.branch hc
        obtain ⟨x, hx, rfl⟩ := List.mem_map.mp hhit
        have hav : M.avoids K o := fun d hd hod => (mem_uncovered.mp (hin d hod)).2 hd
        exact hrows x (mem_column.mpr ⟨rfl, o, ho, hx, hav⟩) o ho hx _ hrest

end

end Muduo.Examples
