import Mathlib.Data.Finset.Card
import Mathlib.Data.Int.Interval
import Mathlib.Data.List.GetD
import Muduo.Examples.SudokuSetup

namespace Muduo.Examples
open Muduo.Lib Muduo.Net Incidence SudokuSolver
open Function (update update_self update_of_ne)

/-- Each group of cells that `unit` makes has every digit just once. -/
def EachDigitOnce (unit : Nat → Nat) (grid : Nat → Int) : Prop :=
  ∀ u < 9, ∀ v : Int, 1 ≤ v ∧ v ≤ 9 → ∃! i, i < kCells ∧ unit i = u ∧ grid i = v

/-- The grid agrees with the cells that are given, and has every digit just once in each row,
column and box. -/
structure Completes (board grid : Nat → Int) : Prop where
  agrees : ∀ i < kCells, board i ≠ 0 → grid i = board i
  rows : EachDigitOnce rowOf grid
  cols : EachDigitOnce colOf grid
  boxes : EachDigitOnce boxOf grid

/-- What the proofs use of a kind of unit and of the names of its columns. -/
structure UnitKind (unit : Nat → Nat) (nameOf : Nat → Nat → Nat) : Prop where
  known : unit = rowOf ∨ unit = colOf ∨ unit = boxOf
  lt : ∀ i < kCells, unit i < 9
  card : ∀ u < 9, ((Finset.range kCells).filter (unit · = u)).card = 9
  mem : ∀ o : Candidate, nameOf (unit o.cell) o.val ∈ o.names
  tell : ∀ (o : Candidate) (u v : Nat), o.legal → u < 9 → v < 10 → nameOf u v ∈ o.names →
    unit o.cell = u ∧ o.val = v
  column : ∀ (board : Nat → Int) (u v : Nat), u < 9 → 1 ≤ v ∧ v < 10 →
    given unit board u v = false → nameOf u v ∈ columnNames board

section

variable {board grid : Nat → Int} {unit : Nat → Nat} {nameOf : Nat → Nat → Nat} {u v i n : Nat}
  {o : Candidate}

theorem mem_names : n ∈ o.names ↔ n = o.cell ∨ n = kRow + rowOf o.cell * 10 + o.val ∨
    n = kCol + colOf o.cell * 10 + o.val ∨ n = kBox + boxOf o.cell * 10 + o.val := by
  simp [Candidate.names, getRowCol, getColCol, getBoxCol]

theorem rows_kind : UnitKind rowOf getRowCol where
  known := .inl rfl
  lt _ := rowOf_lt
  card := by decide +kernel
  mem o := mem_names.mpr (.inr (.inl rfl))
  tell o u v ho hu hv h := by
    obtain ⟨hi, -, hlt⟩ := ho
    have hr := rowOf_lt hi
    have hc := @colOf_lt o.cell
    have hb := boxOf_lt hi
    simp only [mem_names, getRowCol, kRow, kCol, kBox, kCells] at h hi
    omega
  column _ _ _ hu hv hg := unit_mem_columnNames hu hv (by simp [unitNames, mem_keepUnless, hg])

theorem cols_kind : UnitKind colOf getColCol where
  known := .inr (.inl rfl)
  lt _ _ := colOf_lt
  card := by decide +kernel
  mem o := mem_names.mpr (.inr (.inr (.inl rfl)))
  tell o u v ho hu hv h := by
    obtain ⟨hi, -, hlt⟩ := ho
    have hr := rowOf_lt hi
    have hc := @colOf_lt o.cell
    have hb := boxOf_lt hi
    simp only [mem_names, getColCol, kRow, kCol, kBox, kCells] at h hi
    omega
  column _ _ _ hu hv hg := unit_mem_columnNames hu hv (by simp [unitNames, mem_keepUnless, hg])

theorem boxes_kind : UnitKind boxOf getBoxCol where
  known := .inr (.inr rfl)
  lt _ := boxOf_lt
  card := by decide +kernel
  mem o := mem_names.mpr (.inr (.inr (.inr rfl)))
  tell o u v ho hu hv h := by
    obtain ⟨hi, -, hlt⟩ := ho
    have hr := rowOf_lt hi
    have hc := @colOf_lt o.cell
    have hb := boxOf_lt hi
    simp only [mem_names, getBoxCol, kRow, kCol, kBox, kCells] at h hi
    omega
  column _ _ _ hu hv hg := unit_mem_columnNames hu hv (by simp [unitNames, mem_keepUnless, hg])

theorem cell_of_name (hi : i < kCells) (hn : i ∈ o.names) : o.cell = i := by
  simp only [mem_names, kRow, kCol, kBox] at hn
  simp only [kCells] at hi
  omega

/-- A column is that of an empty cell, or of a digit that a unit lacks. -/
theorem columnNames_cases (hn : n ∈ columnNames board) :
    (n < kCells ∧ board n = 0) ∨ ∃ unit nameOf, UnitKind unit nameOf ∧ ∃ u < 9, ∃ v : Nat,
      (1 ≤ v ∧ v < 10) ∧ given unit board u v = false ∧ n = nameOf u v := by
  rcases List.mem_append.mp hn with hn | hn
  · obtain ⟨i, hi, hn⟩ := List.mem_flatMap.mp hn
    obtain ⟨hz, rfl⟩ := mem_keepUnless.mp hn
    exact .inl ⟨List.mem_range.mp hi, by simpa using hz⟩
  · obtain ⟨u, hu, hn⟩ := List.mem_flatMap.mp hn
    obtain ⟨v, hv, hn⟩ := List.mem_flatMap.mp hn
    have hu := List.mem_range.mp hu
    have hv := List.mem_range'_1.mp hv
    have hv : 1 ≤ v ∧ v < 10 := by omega
    simp only [unitNames, List.mem_append, mem_keepUnless] at hn
    rcases hn with ⟨hg, he⟩ | ⟨hg, he⟩ | ⟨hg, he⟩
    · exact .inr ⟨_, _, rows_kind, u, hu, v, hv, hg, he⟩
    · exact .inr ⟨_, _, cols_kind, u, hu, v, hv, hg, he⟩
    · exact .inr ⟨_, _, boxes_kind, u, hu, v, hv, hg, he⟩

/-- The nine cells of a unit that has all nine digits have no other value, and none twice. -/
theorem UnitKind.digits (hk : UnitKind unit nameOf) (hu : u < 9)
    (h : ∀ v : Int, 1 ≤ v ∧ v ≤ 9 → ∃ i < kCells, unit i = u ∧ grid i = v) :
    (∀ i < kCells, unit i = u → 1 ≤ grid i ∧ grid i ≤ 9) ∧
      ∀ i < kCells, ∀ j < kCells, unit i = u → unit j = u → grid i = grid j → i = j := by
  have hcard := hk.card u hu
  generalize hs : (Finset.range kCells).filter (unit · = u) = cells at hcard
  have hmem : ∀ i, i ∈ cells ↔ i < kCells ∧ unit i = u := by simp [← hs]
  have hsub : Finset.Icc (1 : Int) 9 ⊆ cells.image grid := by
    intro v hv
    obtain ⟨i, hi, hui, hgi⟩ := h v (Finset.mem_Icc.mp hv)
    exact Finset.mem_image.mpr ⟨i, (hmem i).mpr ⟨hi, hui⟩, hgi⟩
  have hnine : (Finset.Icc (1 : Int) 9).card = 9 := rfl
  have hle : (cells.image grid).card ≤ 9 := Finset.card_image_le.trans_eq hcard
  have heq := Finset.eq_of_subset_of_card_le hsub (hle.trans_eq hnine.symm)
  have hinj : Set.InjOn grid cells := by
    rw [← Finset.card_image_iff, ← heq, hnine, hcard]
  constructor
  · intro i hi hui
    have hm := Finset.mem_image_of_mem grid ((hmem i).mpr ⟨hi, hui⟩)
    exact Finset.mem_Icc.mp (heq ▸ hm)
  · intro i hi j hj hui huj hij
    exact hinj ((hmem i).mpr ⟨hi, hui⟩) ((hmem j).mpr ⟨hj, huj⟩) hij

/-- A unit in which every digit occurs has each of them just once. -/
theorem UnitKind.eachDigitOnce (hk : UnitKind unit nameOf)
    (h : ∀ u < 9, ∀ v : Int, 1 ≤ v ∧ v ≤ 9 → ∃ i < kCells, unit i = u ∧ grid i = v) :
    EachDigitOnce unit grid := by
  intro u hu v hv
  obtain ⟨i, hi, hui, hgi⟩ := h u hu v hv
  refine ⟨i, ⟨hi, hui, hgi⟩, ?_⟩
  rintro j ⟨hj, huj, hgj⟩
  exact (hk.digits hu (h u hu)).2 j hj i hi huj hui (hgj.trans hgi.symm)

theorem Completes.digit (h : Completes board grid) (hi : i < kCells) : 1 ≤ grid i ∧ grid i ≤ 9 := by
  refine (rows_kind.digits (rowOf_lt hi) fun v hv => ?_).1 i hi rfl
  obtain ⟨j, hj, -⟩ := h.rows (rowOf i) (rowOf_lt hi) v hv
  exact ⟨j, hj⟩

variable {s : SudokuSolver} (h : Filled board (columnNames board) (candidates board) s)

theorem name_of_head {c : Nat} (hc : c ∈ (incidence h).heads) :
    s.nodes.name c ∈ columnNames board := by
  have hm : s.nodes.name c ∈ (headNodes (columnNames board)).map s.nodes.name :=
    List.mem_map_of_mem hc
  rwa [h.names] at hm

theorem head_of_name (hn : n ∈ columnNames board) :
    ∃ c ∈ (incidence h).heads, s.nodes.name c = n := by
  rw [← h.names] at hn
  exact List.mem_map.mp hn

theorem name_inj {c d : Nat} (hc : c ∈ (incidence h).heads) (hd : d ∈ (incidence h).heads)
    (he : s.nodes.name c = s.nodes.name d) : c = d :=
  List.inj_on_of_nodup_map (h.names ▸ columnNames_nodup) hc hd he

/-- A candidate's row has a node in a column just when the column's name is one of its names. -/
theorem hits_iff {c : Nat} (hc : c ∈ (incidence h).heads) (ho : o ∈ candidates board) :
    (incidence h).hits o c ↔ s.nodes.name c ∈ o.names := by
  have hrow := (h.row_eq ho).2
  have hname := fun x hx => h.name_row x (Filled.mem_rowNodes candidates_nodup ho hx)
  rw [← hrow, Incidence.hits, List.mem_map, List.mem_map]
  constructor
  · rintro ⟨x, hx, rfl⟩
    exact ⟨x, hx, hname x hx⟩
  · rintro ⟨x, hx, he⟩
    refine ⟨x, hx, name_inj h ?_ hc ((hname x hx).symm.trans he)⟩
    exact (incidence h).col_row o ho x hx

theorem Completes.inUnit (hc : Completes board grid) (hk : UnitKind unit nameOf) :
    EachDigitOnce unit grid := by
  rcases hk.known with rfl | rfl | rfl
  · exact hc.rows
  · exact hc.cols
  · exact hc.boxes

/-- The value that a completed grid has in an empty cell is not given in the cell's units. -/
theorem Completes.not_given (hc : Completes board grid) (hk : UnitKind unit nameOf) (ho : o.legal)
    (hz : board o.cell = 0) (hv : (o.val : Int) = grid o.cell) :
    given unit board (unit o.cell) o.val = false := by
  obtain ⟨hi, h1, h10⟩ := ho
  rw [Bool.eq_false_iff, Ne, given_iff]
  rintro ⟨j, hj, huj, hgj⟩
  have hne : board j ≠ 0 := by omega
  obtain ⟨k, -, huniq⟩ := hc.inUnit hk (unit o.cell) (hk.lt _ hi) o.val (by omega)
  have he : j = o.cell :=
    (huniq j ⟨hj, huj, (hc.agrees j hj hne).trans hgj⟩).trans (huniq _ ⟨hi, rfl, hv.symm⟩).symm
  exact hne (he ▸ hz)

/-- The candidates that a completed grid has in the empty cells. -/
def chosenBy (board grid : Nat → Int) : Set Candidate :=
  {o | o.legal ∧ board o.cell = 0 ∧ (o.val : Int) = grid o.cell}

theorem chosenBy_candidates (hc : Completes board grid) (ho : o ∈ chosenBy board grid) :
    o ∈ candidates board := by
  obtain ⟨hl, hz, hv⟩ := ho
  refine mem_candidates.mpr ⟨hl, hz, ?_⟩
  rw [excluded, hc.not_given rows_kind hl hz hv, hc.not_given cols_kind hl hz hv,
    hc.not_given boxes_kind hl hz hv]
  rfl

theorem chosenBy_cell (hc : Completes board grid) (hi : i < kCells) (hz : board i = 0) :
    ⟨i, (grid i).toNat⟩ ∈ chosenBy board grid := by
  have hd := hc.digit hi
  have hcast : ((grid i).toNat : Int) = grid i := Int.toNat_of_nonneg (by omega)
  have hval : 1 ≤ (grid i).toNat ∧ (grid i).toNat < 10 := by omega
  exact ⟨⟨hi, hval⟩, hz, hcast⟩

theorem chosenBy_inj {p : Candidate} (ho : o ∈ chosenBy board grid) (hp : p ∈ chosenBy board grid)
    (he : o.cell = p.cell) : o = p := by
  obtain ⟨i, v⟩ := o
  obtain ⟨j, w⟩ := p
  obtain rfl : i = j := he
  have hvw : (v : Int) = w := ho.2.2.trans hp.2.2.symm
  rw [Int.natCast_inj.mp hvw]

/-- A completed grid covers every column just once by the candidates it has in empty cells. -/
theorem solves_of_completes (hc : Completes board grid) :
    Solves (incidence h) [] (chosenBy board grid) where
  offered _ ho := chosenBy_candidates hc ho
  within o ho c hhit := by
    obtain ⟨x, hx, rfl⟩ := List.mem_map.mp hhit
    exact mem_uncovered.mpr
      ⟨(incidence h).col_row o (chosenBy_candidates hc ho) x hx, List.not_mem_nil⟩
  once c hm := by
    have hhead := (mem_uncovered.mp hm).1
    have hhits : ∀ o ∈ chosenBy board grid, (incidence h).hits o c ↔ s.nodes.name c ∈ o.names :=
      fun o ho => hits_iff h hhead (chosenBy_candidates hc ho)
    have hname := name_of_head h hhead
    generalize s.nodes.name c = n at hhits hname
    rcases columnNames_cases hname with ⟨hn, hz⟩ | ⟨unit, nameOf, hk, u, hu, v, hv, hg, rfl⟩
    · have ho := chosenBy_cell hc hn hz
      refine ⟨_, ⟨ho, (hhits _ ho).mpr (mem_names.mpr (.inl rfl))⟩, ?_⟩
      rintro p ⟨hp, hhit⟩
      exact chosenBy_inj hp ho (cell_of_name hn ((hhits p hp).mp hhit))
    · obtain ⟨i, ⟨hi, rfl, hgi⟩, huniq⟩ := hc.inUnit hk u hu v (by omega)
      have hz : board i = 0 := by
        by_contra hne
        rw [Bool.eq_false_iff, Ne, given_iff] at hg
        exact hg ⟨i, hi, rfl, (hc.agrees i hi hne).symm.trans hgi⟩
      have ho := chosenBy_cell hc hi hz
      have hval : (grid i).toNat = v := by omega
      rw [hval] at ho
      refine ⟨_, ⟨ho, (hhits _ ho).mpr (hk.mem _)⟩, ?_⟩
      rintro p ⟨hp, hhit⟩
      obtain ⟨hup, hvp⟩ := hk.tell p _ _ hp.1 hu hv.2 ((hhits p hp).mp hhit)
      refine chosenBy_inj hp ho (huniq _ ⟨hp.1.1, hup, ?_⟩)
      rw [← hp.2.2, hvp]

theorem place_other {os : List Candidate} (hi : ∀ o ∈ os, o.cell ≠ i) :
    os.foldl place board i = board i := by
  induction os generalizing board with
  | nil => rfl
  | cons o os ih =>
    obtain ⟨ho, hos⟩ := List.forall_mem_cons.mp hi
    exact (ih hos).trans (update_of_ne (Ne.symm ho) ..)

/-- Candidates for different cells are all read back. -/
theorem place_mem {os : List Candidate} (hcells : ∀ p ∈ os, p.cell = o.cell → p = o)
    (ho : o ∈ os) : os.foldl place board o.cell = o.val := by
  induction os generalizing board with
  | nil => cases ho
  | cons p os ih =>
    obtain ⟨hp, hos⟩ := List.forall_mem_cons.mp hcells
    by_cases hm : o ∈ os
    · exact ih hos hm
    · have hne : ∀ q ∈ os, q.cell ≠ o.cell := fun q hq he => hm (hos q hq he ▸ hq)
      obtain rfl := (List.mem_cons.mp ho).resolve_right hm
      exact (place_other hne).trans (update_self ..)

/-- The candidates of an exact cover, read back into the board, complete it. -/
theorem completes_of_solves {more : List Candidate}
    (hs : Solves (incidence h) [] {o | o ∈ more}) :
    Completes board (more.foldl place board) := by
  have hopt : ∀ o ∈ more, o ∈ candidates board := fun o ho => hs.offered ho
  have hlegal : ∀ o ∈ more, o.legal ∧ board o.cell = 0 := fun o ho =>
    let hm := mem_candidates.mp (hopt o ho)
    ⟨hm.1, hm.2.1⟩
  have honce : ∀ n ∈ columnNames board, ∃ o ∈ more, n ∈ o.names ∧
      ∀ p ∈ more, n ∈ p.names → p = o := by
    intro n hn
    obtain ⟨c, hc, rfl⟩ := head_of_name h hn
    obtain ⟨o, ⟨ho, hhit⟩, huniq⟩ := hs.once c (mem_uncovered.mpr ⟨hc, List.not_mem_nil⟩)
    refine ⟨o, ho, (hits_iff h hc (hopt o ho)).mp hhit, fun p hp hpn => huniq p ⟨hp, ?_⟩⟩
    exact (hits_iff h hc (hopt p hp)).mpr hpn
  have hread : ∀ o ∈ more, more.foldl place board o.cell = o.val := by
    intro o ho
    refine place_mem (fun p hp he => ?_) ho
    have hn := cell_mem_columnNames (hlegal o ho).1.1 (hlegal o ho).2
    obtain ⟨q, -, -, huniq⟩ := honce o.cell hn
    exact (huniq p hp (mem_names.mpr (.inl he.symm))).trans
      (huniq o ho (mem_names.mpr (.inl rfl))).symm
  have hagrees : ∀ i, board i ≠ 0 → more.foldl place board i = board i := fun i hi =>
    place_other fun o ho he => hi (he ▸ (hlegal o ho).2)
  -- a digit is given in its unit, or its column is covered
  have hevery : ∀ {unit nameOf}, UnitKind unit nameOf → EachDigitOnce unit (more.foldl place board) := by
    intro unit nameOf hk
    refine hk.eachDigitOnce fun u hu v hv => ?_
    obtain ⟨w, rfl⟩ : ∃ w : Nat, v = w := ⟨v.toNat, by omega⟩
    cases hg : given unit board u w with
    | true =>
      obtain ⟨i, hi, hui, hgi⟩ := given_iff.mp hg
      exact ⟨i, hi, hui, (hagrees i (by omega)).trans hgi⟩
    | false =>
      have hw : 1 ≤ w ∧ w < 10 := by omega
      obtain ⟨o, ho, hn, -⟩ := honce _ (hk.column board u w hu hw hg)
      obtain ⟨hou, hov⟩ := hk.tell o u w (hlegal o ho).1 hu hw.2 hn
      exact ⟨o.cell, (hlegal o ho).1.1, hou, (hread o ho).trans (by rw [hov])⟩
  exact ⟨fun i _ => hagrees i, hevery rows_kind, hevery cols_kind, hevery boxes_kind⟩

/-- The search ends, and finds out whether the board can be completed. -/
theorem solve_decides (board : Nat → Int) {depth : Nat} (hdepth : 324 < depth) :
    ∃ s, SudokuSolver.new board = .ok s ∧ ∃ r, s.solve depth = some r ∧
      ((r.1 = true ∧ Completes board r.2.inout) ∨
        (r.1 = false ∧ ∀ grid, ¬Completes board grid)) := by
  obtain ⟨s, hs, h⟩ := new_filled board
  have hlen : ((incidence h).uncovered []).length < depth := by
    have hle : ((incidence h).uncovered []).length ≤ (headNodes (columnNames board)).length :=
      List.length_filter_le ..
    have hns := @columnNames_length board
    rw [headNodes, List.length_range'] at hle
    omega
  have hpicked : Picked (incidence h) s.stack [] := by rw [h.stack]; exact .nil
  obtain ⟨⟨b, s'⟩, hr, hset⟩ := solve_settles (incidence_encodes h) depth [] [] s h.root
    (incidence_shows h) hpicked hlen
  refine ⟨s, hs, (b, s'), hr, ?_⟩
  cases b with
  | true =>
    obtain ⟨more, hinout, hsolves⟩ := hset
    refine .inl ⟨rfl, ?_⟩
    rw [hinout, h.inout, List.nil_append]
    exact completes_of_solves h hsolves
  | false => exact .inr ⟨rfl, fun grid hc => hset.2 _ (solves_of_completes h hc)⟩

end

section

variable {puzzle result : Bytes} {board grid : Nat → Int} {i : Nat}

theorem boardOf_resultOf (hd : 1 ≤ grid i ∧ grid i ≤ 9) (hi : i < kCells) :
    boardOf (resultOf grid) i = grid i := by
  have hget : (resultOf grid).getD i 0 = UInt8.ofNat (grid i + 48).toNat := by
    simp [resultOf, hi]
  have hnat : (UInt8.ofNat (grid i + 48).toNat).toNat = (grid i + 48).toNat := by
    rw [UInt8.toNat_ofNat']
    omega
  rw [boardOf, hget, hnat, Word.toSigned_of_lt 8 (by omega)]
  omega

theorem boardOf_digit (hlen : puzzle.length = kCells)
    (hdigits : ∀ ch ∈ puzzle, 48 ≤ ch.toNat ∧ ch.toNat ≤ 57) (hi : i < kCells) :
    0 ≤ boardOf puzzle i ∧ boardOf puzzle i ≤ 9 := by
  have hm : puzzle.getD i 0 ∈ puzzle := by
    rw [List.getD_eq_getElem _ _ (hlen ▸ hi)]
    exact List.getElem_mem _
  have hch := hdigits _ hm
  rw [boardOf, Word.toSigned_of_lt 8 (by omega)]
  omega

theorem Completes.congr {grid' : Nat → Int} (hc : Completes board grid)
    (he : ∀ i < kCells, grid' i = grid i) : Completes board grid' := by
  have hunit : ∀ {unit}, EachDigitOnce unit grid → EachDigitOnce unit grid' := by
    intro unit h u hu v hv
    obtain ⟨i, ⟨hi, hui, hgi⟩, huniq⟩ := h u hu v hv
    refine ⟨i, ⟨hi, hui, (he i hi).trans hgi⟩, ?_⟩
    rintro j ⟨hj, huj, hgj⟩
    exact huniq j ⟨hj, huj, (he j hj).symm.trans hgj⟩
  exact ⟨fun i hi hne => (he i hi).trans (hc.agrees i hi hne), hunit hc.rows, hunit hc.cols,
    hunit hc.boxes⟩

end

/-- For 81 digits the search ends, and the result is a grid that completes the puzzle, if there is
one, and `NoSolution` otherwise. -/
theorem solve_sudoku_sound_complete (puzzle : Bytes) (hlen : puzzle.length = kCells)
    (hdigits : ∀ ch ∈ puzzle, 48 ≤ ch.toNat ∧ ch.toNat ≤ 57) (depth : Nat) (hdepth : 324 < depth) :
    ∃ result, solveSudoku depth puzzle = .ok (some result) ∧
      ((∃ grid, Completes (boardOf puzzle) grid) →
        result.length = kCells ∧ Completes (boardOf puzzle) (boardOf result)) ∧
      ((¬∃ grid, Completes (boardOf puzzle) grid) → result = kNoSolution) := by
  have hvalid : ((List.range kCells).all fun i =>
      0 ≤ boardOf puzzle i ∧ boardOf puzzle i ≤ 9) = true := by
    rw [List.all_eq_true]
    exact fun i hi => decide_eq_true (boardOf_digit hlen hdigits (List.mem_range.mp hi))
  obtain ⟨s, hs, ⟨b, s'⟩, hr, hset⟩ := solve_decides (boardOf puzzle) hdepth
  have hresult : solveSudoku depth puzzle =
      .ok (some (if b then resultOf s'.inout else kNoSolution)) := by
    rw [solveSudoku, check_pos hlen, ok_bind, if_pos hvalid, hs, ok_bind, hr]
    rfl
  refine ⟨_, hresult, ?_⟩
  rcases hset with ⟨rfl, hc⟩ | ⟨rfl, hnone⟩
  · refine ⟨fun _ => ⟨by simp [resultOf], ?_⟩, fun hno => absurd ⟨_, hc⟩ hno⟩
    exact hc.congr fun i hi => boardOf_resultOf (hc.digit hi) hi
  · exact ⟨fun ⟨grid, hc⟩ => absurd hc (hnone grid), fun _ => rfl⟩

/-- A puzzle with 17 givens. -/
def fewGivens : Bytes :=
  ascii "000000010400000000020000000000050407008000300" ++
    ascii "001090000300400200050100000000806000"

theorem solve_sudoku_sound_complete_sample :
    fewGivens.length = kCells ∧ ∃ result, solveSudoku 325 fewGivens = .ok (some result) ∧
      ((∃ grid, Completes (boardOf fewGivens) grid) →
        result.length = kCells ∧ Completes (boardOf fewGivens) (boardOf result)) ∧
      ((¬∃ grid, Completes (boardOf fewGivens) grid) → result = kNoSolution) :=
  ⟨by decide, solve_sudoku_sound_complete fewGivens (by decide) (by decide +kernel) 325 (by decide)⟩

end Muduo.Examples
