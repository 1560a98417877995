import Mathlib.Data.List.Pairwise
import Muduo.Examples.SudokuSolver
import Muduo.Lib.ExactCover

namespace Muduo.Examples
open Muduo.Lib
open Function (update update_of_ne update_self update_idem update_eq_self)

/-- The columns and rows of an exact cover problem, with the nodes that stand for them. -/
structure Incidence (ο : Type*) where
  root : Nat
  heads : List Nat
  options : List ο
  row : ο → List Nat
  col : Nat → Nat
  name : Nat → Nat
  nodup : (root :: heads ++ options.flatMap row).Nodup
  col_head : ∀ c ∈ heads, col c = c
  col_row : ∀ o ∈ options, ∀ x ∈ row o, col x ∈ heads
  distinct : ∀ o ∈ options, ((row o).map col).Nodup
  small : (root :: heads ++ options.flatMap row).length ≤ kMaxNodes

namespace Incidence

variable {ο : Type*} (M : Incidence ο)

def hits (o : ο) (c : Nat) : Prop := c ∈ (M.row o).map M.col

instance (o : ο) (c : Nat) : Decidable (M.hits o c) := inferInstanceAs (Decidable (_ ∈ _))

/-- The option is still there once the columns `K` are covered. -/
def avoids (K : List Nat) (o : ο) : Prop := ∀ c ∈ K, ¬M.hits o c

instance (K : List Nat) (o : ο) : Decidable (M.avoids K o) :=
  inferInstanceAs (Decidable (∀ c ∈ K, ¬M.hits o c))

/-- The columns that are left once those of `K` are covered. -/
def uncovered (K : List Nat) : List Nat := M.heads.filter (· ∉ K)

def column (K : List Nat) (c : Nat) : List Nat :=
  (M.options.flatMap M.row).filter fun x => M.col x = c ∧ ∃ o ∈ M.options, x ∈ M.row o ∧ M.avoids K o

def others (x : Nat) : List Nat :=
  match M.options.find? fun o => x ∈ M.row o with
  | some o => after x (M.row o)
  | none => []

variable {M} {K : List Nat} {c d x y : Nat} {o p : ο}

theorem row_nodup (ho : o ∈ M.options) : (M.row o).Nodup :=
  (List.nodup_flatMap.mp (List.nodup_append.mp M.nodup).2.1).1 o ho

theorem row_unique (ho : o ∈ M.options) (hp : p ∈ M.options) (hx : x ∈ M.row o)
    (hy : x ∈ M.row p) : o = p := by
  by_contra hne
  have hpair := (List.nodup_flatMap.mp (List.nodup_append.mp M.nodup).2.1).2
  have : Std.Symm (Function.onFun List.Disjoint M.row) := ⟨fun _ _ h _ hx hy => h hy hx⟩
  exact hpair.forall ho hp hne hx hy

theorem mem_rows (ho : o ∈ M.options) (hx : x ∈ M.row o) : x ∈ M.options.flatMap M.row :=
  List.mem_flatMap.mpr ⟨o, ho, hx⟩

theorem row_not_head (ho : o ∈ M.options) (hx : x ∈ M.row o) : x ∉ M.root :: M.heads :=
  fun hm => (List.nodup_append.mp M.nodup).2.2 x hm x (mem_rows ho hx) rfl

theorem others_eq (ho : o ∈ M.options) (hx : x ∈ M.row o) : M.others x = after x (M.row o) := by
  rw [others]
  cases hf : M.options.find? fun o => x ∈ M.row o with
  | none => exact absurd hx (by simpa using List.find?_eq_none.mp hf o ho)
  | some p =>
    have hp : x ∈ M.row p := by simpa using List.find?_some hf
    rw [row_unique ho (List.mem_of_find?_eq_some hf) hx hp]

/-- A row is met from each of its nodes. -/
theorem row_perm (ho : o ∈ M.options) (hx : x ∈ M.row o) : (x :: M.others x).Perm (M.row o) := by
  rw [others_eq ho hx]
  exact after_perm hx

theorem mem_uncovered : c ∈ M.uncovered K ↔ c ∈ M.heads ∧ c ∉ K := by
  simp [uncovered]

theorem mem_column : x ∈ M.column K c ↔
    M.col x = c ∧ ∃ o ∈ M.options, x ∈ M.row o ∧ M.avoids K o := by
  simp only [column, List.mem_filter, decide_eq_true_eq, and_iff_right_iff_imp]
  rintro ⟨-, o, ho, hx, -⟩
  exact mem_rows ho hx

theorem column_nodup : (M.column K c).Nodup := (List.nodup_append.mp M.nodup).2.1.filter _

theorem column_length : (M.column K c).length < kMaxNodes := by
  have hs : (M.column K c).length ≤ (M.options.flatMap M.row).length := List.length_filter_le ..
  have hm := M.small
  simp only [List.cons_append, List.length_cons, List.length_append] at hm
  omega

theorem others_length (ho : o ∈ M.options) (hx : x ∈ M.row o) :
    (M.others x).length < kMaxNodes := by
  have hp := (row_perm ho hx).length_eq
  have hs : (M.row o).length ≤ (M.options.flatMap M.row).length :=
    (List.sublist_flatten_of_mem (List.mem_map_of_mem ho)).length_le
  have hm := M.small
  simp only [List.cons_append, List.length_cons, List.length_append] at hm hp
  omega

theorem hits_of_mem (hx : x ∈ M.row o) : M.hits o (M.col x) := List.mem_map_of_mem hx

theorem same_of_col (ho : o ∈ M.options) (hx : x ∈ M.row o) (hy : y ∈ M.row o)
    (hc : M.col x = M.col y) : x = y := List.inj_on_of_nodup_map (M.distinct o ho) hx hy hc

theorem not_mem_others (ho : o ∈ M.options) (hx : x ∈ M.row o) : x ∉ M.others x :=
  (List.nodup_cons.mp ((row_perm ho hx).nodup_iff.mpr (row_nodup ho))).1

theorem ne_of_others (ho : o ∈ M.options) (hx : x ∈ M.row o) {done rest : List Nat}
    (hl : M.others x = done ++ y :: rest) : y ≠ x := by
  rintro rfl
  exact not_mem_others ho hx (by rw [hl]; simp)

/-- The nodes that covering a column takes out of their columns. -/
def removals (M : Incidence ο) (K : List Nat) (c : Nat) : List Nat :=
  (M.column K c).flatMap M.others

theorem mem_removals : y ∈ M.removals K c ↔
    M.col y ≠ c ∧ ∃ o ∈ M.options, y ∈ M.row o ∧ M.avoids K o ∧ M.hits o c := by
  simp only [removals, List.mem_flatMap, mem_column]
  constructor
  · rintro ⟨x, ⟨rfl, o, ho, hx, hav⟩, hy⟩
    have hyo : y ∈ M.row o := (row_perm ho hx).mem_iff.mp (List.mem_cons_of_mem x hy)
    refine ⟨fun he => ?_, o, ho, hyo, hav, hits_of_mem hx⟩
    exact not_mem_others ho hx (same_of_col ho hyo hx he ▸ hy)
  · rintro ⟨hne, o, ho, hy, hav, hhit⟩
    obtain ⟨x, hx, rfl⟩ := List.mem_map.mp hhit
    refine ⟨x, ⟨rfl, o, ho, hx, hav⟩, ?_⟩
    rcases List.mem_cons.mp ((row_perm ho hx).mem_iff.mpr hy) with rfl | hy
    · exact absurd rfl hne
    · exact hy

theorem removals_nodup : (M.removals K c).Nodup := by
  refine List.nodup_flatMap.mpr ⟨?_, column_nodup.imp_of_mem ?_⟩
  · intro x hx
    obtain ⟨-, o, ho, hxo, -⟩ := mem_column.mp hx
    exact ((row_perm ho hxo).nodup_iff.mpr (row_nodup ho)).of_cons
  · intro x y hx hy hne z hzx hzy
    obtain ⟨hcx, o, ho, hxo, -⟩ := mem_column.mp hx
    obtain ⟨hcy, p, hp, hyp, -⟩ := mem_column.mp hy
    have hzo : z ∈ M.row o := (row_perm ho hxo).mem_iff.mp (List.mem_cons_of_mem x hzx)
    have hzp : z ∈ M.row p := (row_perm hp hyp).mem_iff.mp (List.mem_cons_of_mem y hzy)
    obtain rfl := row_unique ho hp hzo hzp
    exact hne (same_of_col ho hxo hyp (hcx.trans hcy.symm))

/-- A column keeps the rows that the covered column does not take with it. -/
theorem column_covered (hd : d ≠ c) :
    M.column (c :: K) d = (M.column K d).filter (· ∉ M.removals K c) := by
  rw [column, column, List.filter_filter]
  refine List.filter_congr fun x hx => ?_
  rw [← Bool.decide_and, decide_eq_decide, mem_removals]
  constructor
  · rintro ⟨hcol, o, ho, hxo, hav⟩
    obtain ⟨hc, hK⟩ := List.forall_mem_cons.mp hav
    refine ⟨?_, hcol, o, ho, hxo, hK⟩
    rintro ⟨-, p, hp, hxp, -, hhit⟩
    exact hc (row_unique hp ho hxp hxo ▸ hhit)
  · rintro ⟨hkept, hcol, o, ho, hxo, hav⟩
    refine ⟨hcol, o, ho, hxo, List.forall_mem_cons.mpr ⟨fun hhit => hkept ?_, hav⟩⟩
    exact ⟨hcol ▸ hd, o, ho, hxo, hav, hhit⟩

/-- The nodes of a column that has an order of its own, once the columns `K` are covered. -/
def ordered (M : Incidence ο) (order : Nat → List Nat) (K : List Nat) (c : Nat) : List Nat :=
  (order c).filter (· ∈ M.column K c)

variable {order : Nat → List Nat}

theorem mem_column_of_ordered (hx : x ∈ M.ordered order K c) : x ∈ M.column K c :=
  of_decide_eq_true (List.mem_filter.mp hx).2

theorem filter_column : (M.column [] c).filter (· ∈ M.column K c) = M.column K c := by
  have hkept : ∀ x, x ∈ M.column K c ∧ (M.col x = c ∧ ∃ o ∈ M.options, x ∈ M.row o ∧ M.avoids [] o) ↔
      M.col x = c ∧ ∃ o ∈ M.options, x ∈ M.row o ∧ M.avoids K o := by
    intro x
    rw [mem_column]
    constructor
    · exact fun h => h.1
    · rintro ⟨hcol, o, ho, hxo, hav⟩
      exact ⟨⟨hcol, o, ho, hxo, hav⟩, hcol, o, ho, hxo, fun d hd => nomatch hd⟩
  change List.filter _ (List.filter _ (M.options.flatMap M.row)) = _
  rw [List.filter_filter]
  refine List.filter_congr fun x hx => ?_
  rw [← Bool.decide_and, decide_eq_decide]
  exact hkept x

theorem ordered_perm (h : (order c).Perm (M.column [] c)) :
    (M.ordered order K c).Perm (M.column K c) := by
  have hp := h.filter (· ∈ M.column K c)
  rwa [filter_column] at hp

theorem ordered_covered (hd : d ≠ c) :
    M.ordered order (c :: K) d = (M.ordered order K d).filter (· ∉ M.removals K c) := by
  rw [ordered, ordered, column_covered hd, List.filter_filter]
  refine List.filter_congr fun x hx => ?_
  rw [← Bool.decide_and, decide_eq_decide, List.mem_filter, decide_eq_true_eq, and_comm]

/-- The nodes that covering a column takes out of theirs, in the order of the loops. -/
def removed (M : Incidence ο) (order : Nat → List Nat) (K : List Nat) (c : Nat) : List Nat :=
  (M.ordered order K c).flatMap M.others

theorem removed_perm (h : (order c).Perm (M.column [] c)) :
    (M.removed order K c).Perm (M.removals K c) :=
  (ordered_perm h).flatMap_right M.others

end Incidence

namespace Nodes

variable {t : Nodes} {j c : Nat}

@[simp] theorem detach_down : (t.detach j).down = update t.down (t.up j) (t.down j) := by
  rw [detach, update_at]

@[simp] theorem dropHead_right : (t.dropHead c).right = update t.right (t.left c) (t.right c) := by
  rw [dropHead, update_at]

/-- `uncover` undoes what `cover` did to a node that was linked. -/
theorem attach_detach (hu : t.up (t.down j) = j) (hd : t.down (t.up j) = j) :
    (t.detach j).attach j = t := by
  have hdown : (t.detach j).down j = t.down j := by rw [detach_down, update_at]
  have hup : update (t.detach j).up (t.down j) j = t.up := update_back t.up hu _
  have hsize : update (t.detach j).size (t.col j) ((t.detach j).size (t.col j) + 1) = t.size := by
    simp only [detach, update_self, Int.sub_add_cancel, update_idem, update_eq_self]
  have hcol : (t.detach j).col = t.col := rfl
  rw [attach, hdown, hup, hcol, hsize, detach_down, update_back t.down hd]
  rfl

theorem restoreHead_dropHead (hl : t.left (t.right c) = c) (hr : t.right (t.left c) = c) :
    (t.dropHead c).restoreHead c = t := by
  have hright : (t.dropHead c).right c = t.right c := by rw [dropHead_right, update_at]
  have hleft : update (t.dropHead c).left (t.right c) c = t.left := update_back t.left hl _
  rw [restoreHead, hright, hleft, dropHead_right, update_back t.right hr]
  rfl

/-- What covering and uncovering leave alone in every node. -/
def SameLabels (t t' : Nodes) : Prop := t'.col = t.col ∧ t'.name = t.name

theorem SameLabels.trans {t' t'' : Nodes} (h : t.SameLabels t') (h' : t'.SameLabels t'') :
    t.SameLabels t'' := ⟨h'.1.trans h.1, h'.2.trans h.2⟩

/-- Taking nodes out of their columns leaves the rows alone. -/
theorem detachAll_rows (js : List Nat) (t : Nodes) :
    (js.foldl detach t).right = t.right ∧ (js.foldl detach t).left = t.left ∧
      (js.foldl detach t).col = t.col ∧ (js.foldl detach t).name = t.name := by
  induction js generalizing t with
  | nil => exact ⟨rfl, rfl, rfl, rfl⟩
  | cons j js ih => exact ih (t.detach j)

end Nodes

/-- What a table of nodes shows of a problem once the columns `K` are covered. -/
structure Shows {ο : Type*} (M : Incidence ο) (K : List Nat) (t : Nodes) : Prop where
  heads : Ring t.right t.left (M.root :: M.uncovered K)
  rows : ∀ o ∈ M.options, Ring t.right t.left (M.row o)
  columns : ∀ c ∈ M.uncovered K, Ring t.down t.up (c :: M.column K c)
  col : t.col = M.col
  name : t.name = M.name

/-- What a table of nodes shows of a problem whose columns have orders of their own. -/
structure Woven {ο : Type*} (M : Incidence ο) (order : Nat → List Nat) (K : List Nat) (t : Nodes) :
    Prop where
  orders : ∀ c ∈ M.heads, (order c).Perm (M.column [] c)
  heads : Ring t.right t.left (M.root :: M.uncovered K)
  rows : ∀ o ∈ M.options, Ring t.right t.left (M.row o)
  columns : ∀ c ∈ M.uncovered K, Ring t.down t.up (c :: M.ordered order K c)
  col : ∀ o ∈ M.options, ∀ x ∈ M.row o, t.col x = M.col x

/-- The columns are linked but for the nodes that are `gone`. -/
def Linked {ο : Type*} (M : Incidence ο) (order : Nat → List Nat) (K gone : List Nat) (t : Nodes) :
    Prop :=
  ∀ c ∈ M.uncovered K, Ring t.down t.up (c :: (M.ordered order K c).filter (· ∉ gone))

section

variable {ο : Type*} {M : Incidence ο} {order : Nat → List Nat} {K gone done rest js : List Nat}
  {t t' : Nodes} {c j x y : Nat} {o : ο}

theorem col_of_ring {p : Nat → Bool} (hc : c ∈ M.uncovered K)
    (hx : x ∈ c :: (M.ordered order K c).filter p) : M.col x = c := by
  rcases List.mem_cons.mp hx with rfl | hx
  · exact M.col_head x (Incidence.mem_uncovered.mp hc).1
  · have hm := Incidence.mem_column_of_ordered (List.mem_filter.mp hx).1
    exact (Incidence.mem_column.mp hm).1

theorem Linked.kept (h : Linked M order K gone t) (hc : c ∈ M.uncovered K)
    (hgone : ∀ j ∈ gone, M.col j ≠ c) : Ring t.down t.up (c :: M.ordered order K c) := by
  have hr := h c hc
  rwa [List.filter_eq_self.mpr] at hr
  intro x hx
  refine decide_eq_true fun hm => hgone x hm ?_
  exact (Incidence.mem_column.mp (Incidence.mem_column_of_ordered hx)).1

theorem Linked.detach (h : Linked M order K gone t) (hj : j ∈ M.ordered order K (M.col j))
    (hopen : M.col j ∈ M.uncovered K) (hnew : j ∉ gone) :
    Linked M order K (gone ++ [j]) (t.detach j) ∧ (t.detach j).attach j = t := by
  have hring := h (M.col j) hopen
  have hmem : j ∈ M.col j :: (M.ordered order K (M.col j)).filter (· ∉ gone) :=
    List.mem_cons_of_mem _ (List.mem_filter.mpr ⟨hj, decide_eq_true hnew⟩)
  refine ⟨?_, Nodes.attach_detach (hring.prev_next hmem) (hring.next_prev hmem)⟩
  intro c hc
  have hfilter : (M.ordered order K c).filter (· ∉ gone ++ [j]) =
      ((M.ordered order K c).filter (· ∉ gone)).filter (· ≠ j) := by
    rw [List.filter_filter]
    refine List.filter_congr fun x _ => ?_
    rw [← Bool.decide_and, decide_eq_decide, List.mem_append, List.mem_singleton, not_or, and_comm]
  rw [hfilter, Nodes.detach_down]
  by_cases he : c = M.col j
  · subst he
    have hhead : M.col j ≠ j := by
      obtain ⟨-, o, ho, hjo, -⟩ := Incidence.mem_column.mp (Incidence.mem_column_of_ordered hj)
      intro hcj
      exact Incidence.row_not_head ho hjo
        (List.mem_cons_of_mem _ (hcj ▸ (Incidence.mem_uncovered.mp hopen).1))
    have hu := hring.unlink hmem
    rwa [List.filter_cons_of_pos (by simpa using hhead)] at hu
  · have hother : ∀ x ∈ c :: (M.ordered order K c).filter (· ∉ gone), ∀ z,
        z ∈ M.col j :: (M.ordered order K (M.col j)).filter (· ∉ gone) → x ≠ z := by
      rintro x hx z hz rfl
      exact he ((col_of_ring hc hx).symm.trans (col_of_ring hopen hz))
    rw [List.filter_eq_self.mpr]
    · refine (h c hc).congr ?_ ?_
      · exact fun x hx => update_of_ne (hother x hx _ (hring.prev_mem hmem)) ..
      · exact fun x hx => update_of_ne (hother x hx _ (hring.next_mem hmem)) ..
    · exact fun x hx => decide_eq_true (hother x (List.mem_cons_of_mem c hx) j hmem)

theorem Linked.detachAll (h : Linked M order K gone t) (hnodup : (gone ++ js).Nodup)
    (hjs : ∀ j ∈ js, j ∈ M.ordered order K (M.col j) ∧ M.col j ∈ M.uncovered K) :
    Linked M order K (gone ++ js) (js.foldl Nodes.detach t) ∧
      js.reverse.foldl Nodes.attach (js.foldl Nodes.detach t) = t := by
  induction js generalizing gone t with
  | nil => exact ⟨by rwa [List.append_nil], rfl⟩
  | cons j js ih =>
    obtain ⟨hj, hjs⟩ := List.forall_mem_cons.mp hjs
    have hnew : j ∉ gone := fun hm =>
      (List.nodup_append.mp hnodup).2.2 j hm j List.mem_cons_self rfl
    obtain ⟨hd, hback⟩ := h.detach hj.1 hj.2 hnew
    obtain ⟨hl, hall⟩ := ih hd (by rwa [← List.append_cons]) hjs
    refine ⟨by rwa [← List.append_cons] at hl, ?_⟩
    simp only [List.reverse_cons, List.foldl_append, List.foldl_cons, List.foldl_nil, hall, hback]

/-- The table once the rows `done` of the column `c` are taken out of the other columns. -/
def taken (M : Incidence ο) (c : Nat) (done : List Nat) (t : Nodes) : Nodes :=
  (done.flatMap M.others).foldl Nodes.detach (t.dropHead c)

theorem taken_append (done : List Nat) (x : Nat) :
    taken M c (done ++ [x]) t = (M.others x).foldl Nodes.detach (taken M c done t) := by
  rw [taken, List.flatMap_append, List.foldl_append, List.flatMap_singleton]
  rfl

theorem removed_append (hl : M.ordered order K c = done ++ rest) :
    M.removed order K c = done.flatMap M.others ++ rest.flatMap M.others := by
  rw [Incidence.removed, hl, List.flatMap_append]

namespace Woven
open Incidence

variable (h : Woven M order K t)
include h

theorem perm (hc : c ∈ M.uncovered K) : (M.ordered order K c).Perm (M.column K c) :=
  ordered_perm (h.orders c (mem_uncovered.mp hc).1)

theorem ordered_length (hc : c ∈ M.uncovered K) : (M.ordered order K c).length < kMaxNodes := by
  rw [(h.perm hc).length_eq]
  exact column_length

theorem mem_removed (hc : c ∈ M.uncovered K) : y ∈ M.removed order K c ↔ y ∈ M.removals K c :=
  (removed_perm (h.orders c (mem_uncovered.mp hc).1)).mem_iff

theorem removed_nodup (hc : c ∈ M.uncovered K) : (M.removed order K c).Nodup :=
  (removed_perm (h.orders c (mem_uncovered.mp hc).1)).nodup_iff.mpr removals_nodup

theorem removed_open (hc : c ∈ M.uncovered K) (hy : y ∈ M.removed order K c) :
    y ∈ M.ordered order K (M.col y) ∧ M.col y ∈ M.uncovered K := by
  obtain ⟨-, o, ho, hyo, hav, -⟩ := mem_removals.mp ((h.mem_removed hc).mp hy)
  have hopen : M.col y ∈ M.uncovered K :=
    mem_uncovered.mpr ⟨M.col_row o ho y hyo, fun hm => hav _ hm (hits_of_mem hyo)⟩
  exact ⟨(h.perm hopen).mem_iff.mpr (mem_column.mpr ⟨rfl, o, ho, hyo, hav⟩), hopen⟩

theorem linked : Linked M order K [] t := by
  intro c hc
  rw [List.filter_eq_self.mpr (by simp)]
  exact h.columns c hc

theorem taken_linked (hc : c ∈ M.uncovered K) (hl : M.ordered order K c = done ++ rest) :
    Linked M order K (done.flatMap M.others) (taken M c done t) := by
  have hr := removed_append hl
  have hdrop : Linked M order K [] (t.dropHead c) := h.linked
  refine (hdrop.detachAll ?_ ?_).1
  · exact (List.nodup_append.mp (hr ▸ h.removed_nodup hc)).1
  · exact fun j hj => h.removed_open hc (hr ▸ List.mem_append_left _ hj)

/-- Putting back the nodes that were taken out last, in the opposite order. -/
theorem attach_taken (hc : c ∈ M.uncovered K) (hl : M.ordered order K c = done ++ x :: rest) :
    (M.others x).reverse.foldl Nodes.attach (taken M c (done ++ [x]) t) = taken M c done t := by
  have hr := removed_append hl
  rw [List.flatMap_cons, ← List.append_assoc] at hr
  rw [taken_append]
  refine ((h.taken_linked hc hl).detachAll ?_ ?_).2
  · exact (List.nodup_append.mp (hr ▸ h.removed_nodup hc)).1
  · intro j hj
    exact h.removed_open hc (hr ▸ List.mem_append_left _ (List.mem_append_right _ hj))

/-- The covered column itself stays as it was. -/
theorem taken_column (hc : c ∈ M.uncovered K) (hl : M.ordered order K c = done ++ rest) :
    Ring (taken M c done t).down (taken M c done t).up (c :: M.ordered order K c) := by
  refine (h.taken_linked hc hl).kept hc fun j hj => ?_
  have hm : j ∈ M.removed order K c := removed_append hl ▸ List.mem_append_left _ hj
  exact (mem_removals.mp ((h.mem_removed hc).mp hm)).1

theorem dropHead_rows (hc : c ∈ M.uncovered K) (ho : o ∈ M.options) :
    Ring (t.dropHead c).right (t.dropHead c).left (M.row o) := by
  have hmem : c ∈ M.root :: M.uncovered K := List.mem_cons_of_mem _ hc
  have hne : ∀ x ∈ M.row o, ∀ z ∈ M.root :: M.uncovered K, x ≠ z := by
    rintro x hx z hz rfl
    refine Incidence.row_not_head ho hx ?_
    rcases List.mem_cons.mp hz with rfl | hz
    · exact List.mem_cons_self
    · exact List.mem_cons_of_mem _ (Incidence.mem_uncovered.mp hz).1
  rw [Nodes.dropHead_right]
  refine (h.rows o ho).congr ?_ ?_
  · exact fun x hx => update_of_ne (hne x hx _ (h.heads.prev_mem hmem)) ..
  · exact fun x hx => update_of_ne (hne x hx _ (h.heads.next_mem hmem)) ..

theorem taken_rows (done : List Nat) (hc : c ∈ M.uncovered K) (ho : o ∈ M.options) :
    Ring (taken M c done t).right (taken M c done t).left (M.row o) := by
  obtain ⟨hr, hl, -, -⟩ := Nodes.detachAll_rows (done.flatMap M.others) (t.dropHead c)
  rw [taken, hr, hl]
  exact h.dropHead_rows hc ho

theorem detachRow_taken (hc : c ∈ M.uncovered K) (hl : M.ordered order K c = done ++ x :: rest) :
    (taken M c done t).detachRow x = some (taken M c (done ++ [x]) t) := by
  have hx : x ∈ M.ordered order K c := by rw [hl]; simp
  obtain ⟨-, o, ho, hxo, -⟩ := mem_column.mp (mem_column_of_ordered hx)
  have hring := (h.taken_rows done hc ho).after hxo
  rw [← Incidence.others_eq ho hxo] at hring
  rw [taken_append]
  exact walk_ring Nodes.right (fun j t => t.detach j) (fun _ _ => rfl) hring
    (Incidence.others_length ho hxo)

theorem attachRow_taken (hc : c ∈ M.uncovered K) (hl : M.ordered order K c = done ++ x :: rest) :
    (taken M c (done ++ [x]) t).attachRow x = some (taken M c done t) := by
  have hx : x ∈ M.ordered order K c := by rw [hl]; simp
  obtain ⟨-, o, ho, hxo, -⟩ := mem_column.mp (mem_column_of_ordered hx)
  have hring := ((h.taken_rows (done ++ [x]) hc ho).after hxo).reverse
  rw [← Incidence.others_eq ho hxo] at hring
  have hw := walk_ring Nodes.left (fun j t => t.attach j) (fun _ _ => rfl) hring
    (by rw [List.length_reverse]; exact Incidence.others_length ho hxo)
  rw [h.attach_taken hc hl] at hw
  exact hw

theorem cover_eq (hc : c ∈ M.uncovered K) :
    t.cover c = some (taken M c (M.ordered order K c) t) := by
  let Inv (rest : List Nat) (u : Nodes) : Prop :=
    ∃ done, M.ordered order K c = done ++ rest ∧ u = taken M c done t
  have hstep : ∀ x rest u, Inv (x :: rest) u → x ≠ c ∧ ∃ u', u.detachRow x = some u' ∧
      u'.down x = rest.headD c ∧ Inv rest u' := by
    rintro x rest u ⟨done, hl, rfl⟩
    have hx : x ∈ M.ordered order K c := by rw [hl]; simp
    have hl' : M.ordered order K c = (done ++ [x]) ++ rest := by simpa using hl
    have hring := h.taken_column hc hl'
    exact ⟨fun he => (List.nodup_cons.mp hring.1).1 (he ▸ hx), _, h.detachRow_taken hc hl,
      hring.next_eq hl, done ++ [x], hl', rfl⟩
  obtain ⟨u, hw, done, hl, rfl⟩ := walk_spec Nodes.down hstep
    (h.ordered_length hc) ⟨[], rfl, rfl⟩
  have hnone : M.ordered order K c = [] ++ M.ordered order K c := rfl
  have hfirst : (t.dropHead c).down c = (M.ordered order K c).headD c :=
    (h.taken_column hc hnone).2.next_eq
  rw [List.append_nil] at hl
  rw [Nodes.cover, hfirst]
  rw [hl] at hw ⊢
  exact hw

theorem uncover_taken (hc : c ∈ M.uncovered K) :
    (taken M c (M.ordered order K c) t).uncover c = some t := by
  let Inv (rest : List Nat) (u : Nodes) : Prop :=
    ∃ later, M.ordered order K c = rest.reverse ++ later ∧ u = taken M c rest.reverse t
  have hstep : ∀ x rest u, Inv (x :: rest) u → x ≠ c ∧ ∃ u', u.attachRow x = some u' ∧
      u'.up x = rest.headD c ∧ Inv rest u' := by
    rintro x rest u ⟨later, hl, rfl⟩
    rw [List.reverse_cons, List.append_assoc, List.singleton_append] at hl
    have hx : x ∈ M.ordered order K c := by rw [hl]; simp
    have hring := h.taken_column hc hl
    have hup := hring.prev_eq hl
    rw [List.reverse_reverse] at hup
    refine ⟨fun he => (List.nodup_cons.mp hring.1).1 (he ▸ hx), _, ?_, hup, x :: later, hl, rfl⟩
    rw [List.reverse_cons]
    exact h.attachRow_taken hc hl
  obtain ⟨u, hw, later, hl, rfl⟩ := walk_spec Nodes.up (l := (M.ordered order K c).reverse)
    (s := taken M c (M.ordered order K c) t) hstep
    (by rw [List.length_reverse]; exact h.ordered_length hc)
    ⟨[], by simp, by simp⟩
  have hall : M.ordered order K c = M.ordered order K c ++ [] := (List.append_nil _).symm
  have hlast : (taken M c (M.ordered order K c) t).up c = (M.ordered order K c).reverse.headD c :=
    (h.taken_column hc hall).2.prev_eq
  have hmem : c ∈ M.root :: M.uncovered K := List.mem_cons_of_mem _ hc
  rw [Nodes.uncover, hlast, hw, Option.map_some]
  exact congrArg some (Nodes.restoreHead_dropHead (h.heads.prev_next hmem) (h.heads.next_prev hmem))

omit h in
theorem taken_labels : t.SameLabels (taken M c done t) :=
  ⟨(Nodes.detachAll_rows (done.flatMap M.others) (t.dropHead c)).2.2.1,
    (Nodes.detachAll_rows (done.flatMap M.others) (t.dropHead c)).2.2.2⟩

theorem taken_woven (hc : c ∈ M.uncovered K) :
    Woven M order (c :: K) (taken M c (M.ordered order K c) t) := by
  obtain ⟨hright, hleft, hcol, -⟩ :=
    Nodes.detachAll_rows ((M.ordered order K c).flatMap M.others) (t.dropHead c)
  refine ⟨h.orders, ?_, fun o ho => h.taken_rows _ hc ho, ?_, ?_⟩
  · rw [taken, hright, hleft, Nodes.dropHead_right]
    have hu := h.heads.unlink (List.mem_cons_of_mem _ hc)
    have hroot : M.root ≠ c := fun he => (List.nodup_cons.mp h.heads.nodup).1 (he ▸ hc)
    have hrest : (M.root :: M.uncovered K).filter (· ≠ c) = M.root :: M.uncovered (c :: K) := by
      rw [List.filter_cons_of_pos (by simpa using hroot), Incidence.uncovered, List.filter_filter]
      refine congrArg _ (List.filter_congr fun d _ => ?_)
      rw [← Bool.decide_and, decide_eq_decide, List.mem_cons, not_or]
    rwa [hrest] at hu
  · intro d hd
    obtain ⟨hdm, hdK⟩ := mem_uncovered.mp hd
    obtain ⟨hdc, hdK⟩ := not_or.mp (List.mem_cons.not.mp hdK)
    have hall : M.ordered order K c = M.ordered order K c ++ [] := (List.append_nil _).symm
    have hring := h.taken_linked hc hall d (mem_uncovered.mpr ⟨hdm, hdK⟩)
    have hkept : (M.ordered order K d).filter (· ∉ M.removals K c) =
        (M.ordered order K d).filter (· ∉ M.removed order K c) :=
      List.filter_congr fun x _ => decide_eq_decide.mpr (not_congr (h.mem_removed hc).symm)
    rw [ordered_covered hdc, hkept]
    exact hring
  · intro o ho x hx
    rw [taken, hcol]
    exact h.col o ho x hx

/-- Covering a column leaves the problem without it, and uncovering it takes all of that back. -/
theorem cover (hc : c ∈ M.uncovered K) : ∃ t', t.cover c = some t' ∧ Woven M order (c :: K) t' ∧
    t'.uncover c = some t ∧ Ring t'.down t'.up (c :: M.ordered order K c) ∧ t.SameLabels t' :=
  have hall : M.ordered order K c = M.ordered order K c ++ [] := (List.append_nil _).symm
  ⟨_, h.cover_eq hc, h.taken_woven hc, h.uncover_taken hc, h.taken_column hc hall, taken_labels⟩

theorem row_ring (ho : o ∈ M.options) (hx : x ∈ M.row o) :
    Ring t.right t.left (x :: M.others x) := by
  rw [Incidence.others_eq ho hx]
  exact (h.rows o ho).after hx

omit h in
theorem coverAll {cs : List Nat} (h : Woven M order K t) (hnodup : cs.Nodup)
    (hcs : ∀ c ∈ cs, c ∈ M.uncovered K) :
    ∃ t', cs.foldlM Nodes.cover t = some t' ∧ Woven M order (cs.reverse ++ K) t' ∧
      t.SameLabels t' := by
  induction cs generalizing K t with
  | nil => exact ⟨t, rfl, h, rfl, rfl⟩
  | cons c cs ih =>
    obtain ⟨hc, hcs⟩ := List.forall_mem_cons.mp hcs
    obtain ⟨hnew, hnodup⟩ := List.nodup_cons.mp hnodup
    obtain ⟨u, hu, hwoven, -, -, hlabels⟩ := h.cover hc
    have hopen : ∀ d ∈ cs, d ∈ M.uncovered (c :: K) := by
      intro d hd
      obtain ⟨hdm, hdK⟩ := mem_uncovered.mp (hcs d hd)
      refine mem_uncovered.mpr ⟨hdm, List.mem_cons.not.mpr (not_or.mpr ⟨?_, hdK⟩)⟩
      rintro rfl
      exact hnew hd
    obtain ⟨t', ht, hs, hlabels'⟩ := ih hwoven hnodup hopen
    refine ⟨t', ?_, by rwa [List.reverse_cons, ← List.append_cons], hlabels.trans hlabels'⟩
    rw [List.foldlM_cons, hu]
    exact ht

/-- The other columns of a row are covered one after the other, each of them while it is open. -/
theorem cover_next (ho : o ∈ M.options) (hx : x ∈ M.row o)
    (hopen : ∀ z ∈ M.others x, M.col z ∈ M.uncovered K) (hl : M.others x = done ++ y :: rest) :
    ∃ u u', (done.map M.col).foldlM Nodes.cover t = some u ∧
      ((done ++ [y]).map M.col).foldlM Nodes.cover t = some u' ∧
      u.cover (u.col y) = some u' ∧ u'.uncover (u'.col y) = some u ∧
      u.left y = done.reverse.headD x ∧ u'.right y = rest.headD x := by
  have hcols : ((M.others x).map M.col).Nodup :=
    (((row_perm ho hx).map M.col).nodup_iff.mpr (M.distinct o ho)).of_cons
  rw [hl, List.map_append, List.map_cons] at hcols
  obtain ⟨hdone, hrest, hapart⟩ := List.nodup_append.mp hcols
  have hin : ∀ z ∈ done ++ y :: rest, M.col z ∈ M.uncovered K := hl ▸ hopen
  obtain ⟨u, hu, hs, -⟩ := h.coverAll hdone (by
    intro c hc
    obtain ⟨z, hz, rfl⟩ := List.mem_map.mp hc
    exact hin z (List.mem_append_left _ hz))
  have hy : M.col y ∈ M.uncovered ((done.map M.col).reverse ++ K) := by
    obtain ⟨hm, hK⟩ := mem_uncovered.mp (hin y (by simp))
    refine mem_uncovered.mpr ⟨hm, fun hmem => ?_⟩
    rcases List.mem_append.mp hmem with hd | hk
    · exact hapart _ (List.mem_reverse.mp hd) _ List.mem_cons_self rfl
    · exact hK hk
  obtain ⟨u', hu', hs', hback, -⟩ := hs.cover hy
  have hyo : y ∈ M.row o := (row_perm ho hx).mem_iff.mp (by rw [hl]; simp)
  rw [← hs.col o ho y hyo] at hu'
  refine ⟨u, u', hu, ?_, hu', ?_, (hs.row_ring ho hx).prev_eq hl, (hs'.row_ring ho hx).next_eq hl⟩
  · rw [List.map_append, List.foldlM_append, hu]
    rw [hs.col o ho y hyo] at hu'
    exact (bind_pure _).trans hu'
  · rwa [hs'.col o ho y hyo]

theorem walk_cover (ho : o ∈ M.options) (hx : x ∈ M.row o)
    (hopen : ∀ z ∈ M.others x, M.col z ∈ M.uncovered K) {t' : Nodes}
    (hall : ((M.others x).map M.col).foldlM Nodes.cover t = some t') :
    walk Nodes.right (fun j t => t.cover (t.col j)) x kMaxNodes ((M.others x).headD x) t =
      some t' := by
  let Inv (rest : List Nat) (u : Nodes) : Prop :=
    ∃ done, M.others x = done ++ rest ∧ (done.map M.col).foldlM Nodes.cover t = some u
  have hstep : ∀ y rest u, Inv (y :: rest) u → y ≠ x ∧ ∃ u', u.cover (u.col y) = some u' ∧
      u'.right y = rest.headD x ∧ Inv rest u' := by
    rintro y rest u ⟨done, hl, hu⟩
    obtain ⟨v, v', hv, hv', hcover, -, -, hnext⟩ := h.cover_next ho hx hopen hl
    obtain rfl := Option.some.inj (hv.symm.trans hu)
    exact ⟨ne_of_others ho hx hl, v', hcover, hnext, done ++ [y], by simpa using hl, hv'⟩
  obtain ⟨u, hw, done, hl, hu⟩ := walk_spec Nodes.right hstep (others_length ho hx) ⟨[], rfl, rfl⟩
  rw [List.append_nil] at hl
  subst hl
  obtain rfl := Option.some.inj (hu.symm.trans hall)
  exact hw

theorem walk_uncover (ho : o ∈ M.options) (hx : x ∈ M.row o)
    (hopen : ∀ z ∈ M.others x, M.col z ∈ M.uncovered K) {t' : Nodes}
    (hall : ((M.others x).map M.col).foldlM Nodes.cover t = some t') :
    walk Nodes.left (fun j t => t.uncover (t.col j)) x kMaxNodes ((M.others x).reverse.headD x) t' =
      some t := by
  let Back (rest : List Nat) (u : Nodes) : Prop :=
    ∃ later, M.others x = rest.reverse ++ later ∧
      (rest.reverse.map M.col).foldlM Nodes.cover t = some u
  have hback : ∀ y rest u, Back (y :: rest) u → y ≠ x ∧ ∃ u', u.uncover (u.col y) = some u' ∧
      u'.left y = rest.headD x ∧ Back rest u' := by
    rintro y rest u ⟨later, hl, hu⟩
    rw [List.reverse_cons, List.append_assoc, List.singleton_append] at hl
    obtain ⟨v, v', hv, hv', -, huncover, hprev, -⟩ := h.cover_next ho hx hopen hl
    rw [List.reverse_cons] at hu
    obtain rfl := Option.some.inj (hv'.symm.trans hu)
    rw [List.reverse_reverse] at hprev
    exact ⟨ne_of_others ho hx hl, v, huncover, hprev, y :: later, hl, hv⟩
  have hstart : Back (M.others x).reverse t' := ⟨[], by simp, by rwa [List.reverse_reverse]⟩
  obtain ⟨u, hw, -, -, hu⟩ := walk_spec Nodes.left hback
    (by rw [List.length_reverse]; exact others_length ho hx) hstart
  obtain rfl := Option.some.inj hu
  exact hw

/-- Choosing a row covers its other columns, and taking the choice back uncovers them. -/
theorem coverRow (ho : o ∈ M.options) (hx : x ∈ M.row o)
    (hopen : ∀ z ∈ M.others x, M.col z ∈ M.uncovered K) :
    ∃ t', walk Nodes.right (fun j t => t.cover (t.col j)) x kMaxNodes (t.right x) t = some t' ∧
      Woven M order (((M.others x).map M.col).reverse ++ K) t' ∧
      walk Nodes.left (fun j t => t.uncover (t.col j)) x kMaxNodes (t'.left x) t' = some t ∧
      t.SameLabels t' := by
  have hcols : ((M.others x).map M.col).Nodup :=
    (((row_perm ho hx).map M.col).nodup_iff.mpr (M.distinct o ho)).of_cons
  obtain ⟨t', hall, hs, hlabels⟩ := h.coverAll hcols (by
    intro c hc
    obtain ⟨z, hz, rfl⟩ := List.mem_map.mp hc
    exact hopen z hz)
  refine ⟨t', ?_, hs, ?_, hlabels⟩
  · rw [(h.row_ring ho hx).2.next_eq]
    exact h.walk_cover ho hx hopen hall
  · rw [(hs.row_ring ho hx).2.prev_eq]
    exact h.walk_uncover ho hx hopen hall

end Woven

namespace Shows
open Incidence

variable (h : Shows M K t)
include h

theorem woven : Woven M (M.column []) K t where
  orders _ _ := List.Perm.refl _
  heads := h.heads
  rows := h.rows
  columns c hc := by
    rw [ordered, filter_column]
    exact h.columns c hc
  col _ _ _ _ := by rw [h.col]

theorem of_woven (hw : Woven M (M.column []) gone t') (hlabels : t.SameLabels t') :
    Shows M gone t' where
  heads := hw.heads
  rows := hw.rows
  columns c hc := by
    have hring := hw.columns c hc
    rwa [ordered, filter_column] at hring
  col := hlabels.1.trans h.col
  name := hlabels.2.trans h.name

theorem cover (hc : c ∈ M.uncovered K) : ∃ t', t.cover c = some t' ∧ Shows M (c :: K) t' ∧
    t'.uncover c = some t ∧ Ring t'.down t'.up (c :: M.column K c) := by
  obtain ⟨t', hcover, hw, hback, hring, hlabels⟩ := h.woven.cover hc
  rw [ordered, filter_column] at hring
  exact ⟨t', hcover, h.of_woven hw hlabels, hback, hring⟩

theorem coverRow (ho : o ∈ M.options) (hx : x ∈ M.row o)
    (hopen : ∀ z ∈ M.others x, M.col z ∈ M.uncovered K) :
    ∃ t', walk Nodes.right (fun j t => t.cover (t.col j)) x kMaxNodes (t.right x) t = some t' ∧
      Shows M (((M.others x).map M.col).reverse ++ K) t' ∧
      walk Nodes.left (fun j t => t.uncover (t.col j)) x kMaxNodes (t'.left x) t' = some t := by
  obtain ⟨t', hw, hwoven, hback, hlabels⟩ := h.woven.coverRow ho hx hopen
  exact ⟨t', hw, h.of_woven hwoven hlabels, hback⟩

end Shows

end

end Muduo.Examples
