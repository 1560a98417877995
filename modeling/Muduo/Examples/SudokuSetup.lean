import Muduo.Examples.SudokuSearch
import Muduo.Lib.Growing

namespace Muduo.Examples
open Muduo.Lib Muduo.Net
open Function (update update_self update_of_ne)

namespace Nodes

variable (t : Nodes) (x y : Nat)

theorem putLeft_right : (t.putLeft x y).right = update (update t.right y x) (t.left x) y := by
  rw [putLeft, update_at]

theorem putLeft_left : (t.putLeft x y).left = update (update t.left y (t.left x)) x y := rfl

theorem putLeft_ring {t : Nodes} {x y : Nat} {l : List Nat} (h : Ring t.right t.left (x :: l))
    (hy : y ∉ x :: l) : Ring (t.putLeft x y).right (t.putLeft x y).left (x :: l ++ [y]) := by
  rw [putLeft_right, putLeft_left]
  exact h.insert hy

/-- The rings that the new node does not come into stay as they are. -/
theorem putLeft_other {t : Nodes} {x y : Nat} {l k : List Nat} (h : Ring t.right t.left (x :: l))
    (hk : Ring t.right t.left k) (hne : ∀ z ∈ k, z ∉ x :: l ∧ z ≠ y) :
    Ring (t.putLeft x y).right (t.putLeft x y).left k := by
  rw [putLeft_right, putLeft_left]
  exact h.insert_other hk hne

theorem putUp_down : (t.putUp x y).down = update (update t.down y x) (t.up x) y := by
  rw [putUp, update_at]

theorem putUp_up : (t.putUp x y).up = update (update t.up y (t.up x)) x y := rfl

theorem putUp_ring {t : Nodes} {x y : Nat} {l : List Nat} (h : Ring t.down t.up (x :: l))
    (hy : y ∉ x :: l) : Ring (t.putUp x y).down (t.putUp x y).up (x :: l ++ [y]) := by
  rw [putUp_down, putUp_up]
  exact h.insert hy

/-- The columns that the new node does not come into stay as they are. -/
theorem putUp_other {t : Nodes} {x y : Nat} {l k : List Nat} (h : Ring t.down t.up (x :: l))
    (hk : Ring t.down t.up k) (hne : ∀ z ∈ k, z ∉ x :: l ∧ z ≠ y) :
    Ring (t.putUp x y).down (t.putUp x y).up k := by
  rw [putUp_down, putUp_up]
  exact h.insert_other hk hne

end Nodes

/-- The numbers of the column nodes, the first ones after the root. -/
def headNodes (ns : List Nat) : List Nat := List.range' 1 ns.length

/-- The numbers of the first `m` nodes after the columns. -/
def rowNodes (ns : List Nat) (m : Nat) : List Nat := List.range' (1 + ns.length) m

/-- The constructor has made the columns `ns` and `m` nodes for them. -/
structure Built (board : Nat → Int) (ns : List Nat) (m : Nat) (s : SudokuSolver) : Prop where
  root : s.root = 0
  inout : s.inout = board
  stack : s.stack = []
  cur : s.curNode = 1 + ns.length + m
  columns : ∀ n, s.columns n = if n ∈ ns then some (1 + ns.idxOf n) else none
  heads : Ring s.nodes.right s.nodes.left (0 :: headNodes ns)
  names : (headNodes ns).map s.nodes.name = ns
  col_head : ∀ c ∈ headNodes ns, s.nodes.col c = c
  col_row : ∀ x ∈ rowNodes ns m, s.nodes.col x ∈ headNodes ns
  name_row : ∀ x ∈ rowNodes ns m, s.nodes.name x = s.nodes.name (s.nodes.col x)
  linked : ∀ c ∈ headNodes ns,
    Ring s.nodes.down s.nodes.up (c :: (rowNodes ns m).filter (s.nodes.col · = c))

section

variable {board : Nat → Int} {ns : List Nat} {m n x c : Nat} {s : SudokuSolver}

theorem mem_headNodes : c ∈ headNodes ns ↔ 1 ≤ c ∧ c < 1 + ns.length := List.mem_range'_1

theorem mem_rowNodes : x ∈ rowNodes ns m ↔ 1 + ns.length ≤ x ∧ x < 1 + ns.length + m :=
  List.mem_range'_1

theorem headNodes_append : headNodes (ns ++ [n]) = headNodes ns ++ [1 + ns.length] := by
  rw [headNodes, List.length_append, List.length_singleton, List.range'_1_concat]
  rfl

theorem rowNodes_succ : rowNodes ns (m + 1) = rowNodes ns m ++ [1 + ns.length + m] :=
  List.range'_1_concat ..

/-- Another column, for a name that has none yet. -/
theorem Built.appendColumn (h : Built board ns 0 s) (hn : n ∉ ns)
    (hroom : 1 + ns.length < kMaxNodes) :
    ∃ s', s.appendColumn n = .ok s' ∧ Built board (ns ++ [n]) 0 s' := by
  have hcur : s.curNode = 1 + ns.length := h.cur
  have hnone : s.columns n = none := by rw [h.columns, if_neg hn]
  have hfresh : ∀ c ∈ 0 :: headNodes ns, c ≠ s.curNode := by
    intro c hc
    rcases List.mem_cons.mp hc with rfl | hc
    · omega
    · have := mem_headNodes.mp hc
      omega
  refine ⟨{ s with
    curNode := s.curNode + 1
    columns := update s.columns n (some s.curNode)
    nodes := (s.nodes.init s.curNode s.curNode n).putLeft s.root s.curNode }, ?_, ?_⟩
  · rw [SudokuSolver.appendColumn, check_pos hnone, ok_bind, SudokuSolver.newColumn,
      check_pos (hcur ▸ hroom)]
    rfl
  have hring : Ring (update s.nodes.right s.curNode s.curNode)
      (update s.nodes.left s.curNode s.curNode) (0 :: headNodes ns) :=
    h.heads.congr (fun c hc => update_of_ne (hfresh c hc) ..)
      (fun c hc => update_of_ne (hfresh c hc) ..)
  have hins := hring.insert fun hm => hfresh _ hm rfl
  constructor
  case root => exact h.root
  case inout => exact h.inout
  case stack => exact h.stack
  case cur => simp [hcur, Nat.add_assoc]
  case columns =>
    intro k
    change update s.columns n (some s.curNode) k = _
    by_cases hk : k = n
    · subst hk
      simp [List.idxOf_append_of_notMem hn, hcur]
    · rw [update_of_ne hk, h.columns]
      by_cases hm : k ∈ ns
      · simp [hm, List.idxOf_append_of_mem hm]
      · simp [hm, hk]
  case heads =>
    rw [headNodes_append, ← hcur]
    change Ring ((s.nodes.init s.curNode s.curNode n).putLeft s.root s.curNode).right
      ((s.nodes.init s.curNode s.curNode n).putLeft s.root s.curNode).left _
    rw [h.root, Nodes.putLeft_right, Nodes.putLeft_left]
    exact hins
  case names =>
    change (headNodes (ns ++ [n])).map (update s.nodes.name s.curNode n) = ns ++ [n]
    have hold : (headNodes ns).map (update s.nodes.name s.curNode n) = ns :=
      (List.map_congr_left fun c hc =>
        update_of_ne (hfresh c (List.mem_cons_of_mem 0 hc)) ..).trans h.names
    rw [headNodes_append, List.map_append, hold, ← hcur, List.map_singleton, update_self]
  case col_head =>
    intro c hc
    rw [headNodes_append, List.mem_append, List.mem_singleton, ← hcur] at hc
    rcases hc with hc | rfl
    · exact (update_of_ne (hfresh c (List.mem_cons_of_mem 0 hc)) ..).trans (h.col_head c hc)
    · exact update_self ..
  case col_row => nofun
  case name_row => nofun
  case linked =>
    intro c hc
    rw [headNodes_append, List.mem_append, List.mem_singleton, ← hcur] at hc
    rcases hc with hc | rfl
    · have hne : c ≠ s.curNode := hfresh c (List.mem_cons_of_mem 0 hc)
      obtain ⟨-, hd, hu⟩ := h.linked c hc
      exact ring_singleton ((update_of_ne hne ..).trans hd) ((update_of_ne hne ..).trans hu)
    · exact ring_singleton (update_self ..) (update_self ..)

theorem Built.name_head (h : Built board ns m s) (hn : n ∈ ns) :
    s.nodes.name (1 + ns.idxOf n) = n := by
  have hlt : ns.idxOf n < ns.length := List.idxOf_lt_length_iff.mpr hn
  have hget : ((headNodes ns).map s.nodes.name)[ns.idxOf n]? = ns[ns.idxOf n]? := by rw [h.names]
  rw [List.getElem?_map, headNodes, List.getElem?_range' hlt, List.getElem?_eq_getElem hlt,
    List.getElem_idxOf] at hget
  simpa using hget

/-- A node in the column of `n`. -/
theorem Built.newRow (h : Built board ns m s) (hn : n ∈ ns)
    (hroom : 1 + ns.length + m < kMaxNodes) :
    ∃ s', s.newRow n = .ok (1 + ns.length + m, s') ∧ Built board ns (m + 1) s' ∧
      s'.nodes.right = update s.nodes.right (1 + ns.length + m) (1 + ns.length + m) ∧
      s'.nodes.left = update s.nodes.left (1 + ns.length + m) (1 + ns.length + m) ∧
      s'.nodes.name = update s.nodes.name (1 + ns.length + m) n := by
  have hcur := h.cur
  generalize hr : 1 + ns.length + m = r at *
  generalize hc : 1 + ns.idxOf n = c
  have hlt : ns.idxOf n < ns.length := List.idxOf_lt_length_iff.mpr hn
  have hcol : s.columns n = some c := by rw [h.columns, if_pos hn, hc]
  have hhead : c ∈ headNodes ns := mem_headNodes.mpr (by omega)
  have hfresh : ∀ x ∈ headNodes ns, x ≠ r := by
    intro x hx
    have := mem_headNodes.mp hx
    omega
  have hold : ∀ x ∈ rowNodes ns m, x ≠ r := by
    intro x hx
    have := mem_rowNodes.mp hx
    omega
  refine ⟨{ s with curNode := r + 1, nodes := (s.nodes.init r c n).putUp c r }, ?_, ?_, rfl, rfl, rfl⟩
  · rw [SudokuSolver.newRow, hcol]
    simp only [hcur, check_pos hroom, ok_bind]
    rfl
  have hsucc : rowNodes ns (m + 1) = rowNodes ns m ++ [r] := by rw [rowNodes_succ, hr]
  have hcol' : ∀ x, x ≠ r → update (update s.nodes.col r c) r c x = s.nodes.col x := by
    intro x hx
    rw [update_of_ne hx, update_of_ne hx]
  constructor
  case root => exact h.root
  case inout => exact h.inout
  case stack => exact h.stack
  case cur => exact congrArg (· + 1) hr.symm
  case columns => exact h.columns
  case heads =>
    have hne : ∀ x ∈ 0 :: headNodes ns, x ≠ r := by
      intro x hx
      rcases List.mem_cons.mp hx with rfl | hx
      · omega
      · exact hfresh x hx
    exact h.heads.congr (fun x hx => update_of_ne (hne x hx) ..)
      (fun x hx => update_of_ne (hne x hx) ..)
  case names =>
    refine (List.map_congr_left fun x hx => ?_).trans h.names
    exact update_of_ne (hfresh x hx) ..
  case col_head => exact fun x hx => (hcol' x (hfresh x hx)).trans (h.col_head x hx)
  case col_row =>
    intro x hx
    change update (update s.nodes.col r c) r c x ∈ headNodes ns
    rw [hsucc, List.mem_append, List.mem_singleton] at hx
    rcases hx with hx | rfl
    · rw [hcol' x (hold x hx)]
      exact h.col_row x hx
    · rwa [update_self]
  case name_row =>
    intro x hx
    change update s.nodes.name r n x = update s.nodes.name r n (update (update s.nodes.col r c) r c x)
    rw [hsucc, List.mem_append, List.mem_singleton] at hx
    rcases hx with hx | rfl
    · rw [hcol' x (hold x hx), update_of_ne (hold x hx), update_of_ne (hfresh _ (h.col_row x hx))]
      exact h.name_row x hx
    · rw [update_self, update_self, update_of_ne (hfresh c hhead), ← hc]
      exact (h.name_head hn).symm
  case linked =>
    intro d hd
    have hinit : ∀ d ∈ headNodes ns, Ring (update s.nodes.down r r) (update s.nodes.up r r)
        (d :: (rowNodes ns m).filter (s.nodes.col · = d)) := by
      intro d hd
      have hne : ∀ x ∈ d :: (rowNodes ns m).filter (s.nodes.col · = d), x ≠ r := by
        intro x hx
        rcases List.mem_cons.mp hx with rfl | hx
        · exact hfresh x hd
        · exact hold x (List.mem_filter.mp hx).1
      exact (h.linked d hd).congr (fun x hx => update_of_ne (hne x hx) ..)
        (fun x hx => update_of_ne (hne x hx) ..)
    have hcolumn : ∀ d ∈ headNodes ns, ∀ x ∈ d :: (rowNodes ns m).filter (s.nodes.col · = d),
        s.nodes.col x = d ∧ x ≠ r := by
      intro d hd x hx
      rcases List.mem_cons.mp hx with rfl | hx
      · exact ⟨h.col_head x hd, hfresh x hd⟩
      · exact ⟨by simpa using (List.mem_filter.mp hx).2, hold x (List.mem_filter.mp hx).1⟩
    have hfilter : (rowNodes ns m).filter (update (update s.nodes.col r c) r c · = d) =
        (rowNodes ns m).filter (s.nodes.col · = d) :=
      List.filter_congr fun x hx => by rw [hcol' x (hold x hx)]
    change Ring ((s.nodes.init r c n).putUp c r).down ((s.nodes.init r c n).putUp c r).up
      (d :: (rowNodes ns (m + 1)).filter (update (update s.nodes.col r c) r c · = d))
    rw [hsucc, List.filter_append, hfilter]
    by_cases he : d = c
    · subst he
      rw [List.filter_cons_of_pos (by simp), List.filter_nil]
      exact Nodes.putUp_ring (hinit d hd) fun hm => (hcolumn d hd r hm).2 rfl
    · rw [List.filter_cons_of_neg (by simpa using Ne.symm he), List.filter_nil, List.append_nil]
      refine Nodes.putUp_other (hinit c hhead) (hinit d hd) ?_
      intro x hx
      have hcol := (hcolumn d hd x hx).1
      exact ⟨fun hc => he (hcol.symm.trans (hcolumn c hhead x hc).1), (hcolumn d hd x hx).2⟩

/-- The nodes of the candidate with the given place. -/
def rowAt (ns : List Nat) (i : Nat) : List Nat := List.range' (1 + ns.length + 4 * i) 4

/-- The constructor has made the columns `ns` and the rows of the candidates `os`. -/
structure Filled (board : Nat → Int) (ns : List Nat) (os : List Candidate) (s : SudokuSolver) : Prop
    extends Built board ns (4 * os.length) s where
  rows : ∀ i o, os[i]? = some o → Ring s.nodes.right s.nodes.left (rowAt ns i) ∧
    (rowAt ns i).map s.nodes.name = o.names

variable {os : List Candidate} {o : Candidate}

/-- The four nodes of a candidate, not linked to each other yet. -/
theorem Built.newRows (h : Built board ns m s) {n0 nr nc nb : Nat}
    (hn : n0 ∈ ns ∧ nr ∈ ns ∧ nc ∈ ns ∧ nb ∈ ns) {b : Nat} (hb : b = 1 + ns.length + m)
    (hroom : b + 4 ≤ kMaxNodes) :
    ∃ s₁ s₂ s₃ s₄, s.newRow n0 = .ok (b, s₁) ∧ s₁.newRow nr = .ok (b + 1, s₂) ∧
      s₂.newRow nc = .ok (b + 2, s₃) ∧ s₃.newRow nb = .ok (b + 3, s₄) ∧
      Built board ns (m + 4) s₄ ∧
      (∀ x < b, s₄.nodes.right x = s.nodes.right x ∧ s₄.nodes.left x = s.nodes.left x ∧
        s₄.nodes.name x = s.nodes.name x) ∧
      Ring s₄.nodes.right s₄.nodes.left [b] ∧
      [b, b + 1, b + 2, b + 3].map s₄.nodes.name = [n0, nr, nc, nb] := by
  obtain ⟨h0, hr, hc, hb'⟩ := hn
  obtain ⟨s₁, e₁, b₁, r₁, l₁, n₁⟩ := h.newRow h0 (by omega)
  obtain ⟨s₂, e₂, b₂, r₂, l₂, n₂⟩ := b₁.newRow hr (by omega)
  obtain ⟨s₃, e₃, b₃, r₃, l₃, n₃⟩ := b₂.newRow hc (by omega)
  obtain ⟨s₄, e₄, b₄, r₄, l₄, n₄⟩ := b₃.newRow hb' (by omega)
  simp only [← Nat.add_assoc, ← hb] at e₁ e₂ e₃ e₄ r₁ r₂ r₃ r₄ l₁ l₂ l₃ l₄ n₁ n₂ n₃ n₄
  refine ⟨s₁, s₂, s₃, s₄, e₁, e₂, e₃, e₄, b₄, ?_, ?_, ?_⟩
  · intro x hx
    have hne : x ≠ b ∧ x ≠ b + 1 ∧ x ≠ b + 2 ∧ x ≠ b + 3 := by omega
    simp only [r₄, r₃, r₂, r₁, l₄, l₃, l₂, l₁, n₄, n₃, n₂, n₁, update_of_ne hne.1,
      update_of_ne hne.2.1, update_of_ne hne.2.2.1, update_of_ne hne.2.2.2, and_self]
  · refine ring_singleton ?_ ?_
    · simp [r₄, r₃, r₂, r₁, Nat.add_assoc]
    · simp [l₄, l₃, l₂, l₁, Nat.add_assoc]
  · simp [n₄, n₃, n₂, n₁, Nat.add_assoc]

/-- Another row, for a candidate whose columns are all there. -/
theorem Filled.appendRow (h : Filled board ns os s) (hn : ∀ n ∈ o.names, n ∈ ns)
    (hroom : 1 + ns.length + 4 * (os.length + 1) ≤ kMaxNodes) :
    ∃ s', s.appendRow o.cell o.val = .ok s' ∧ Filled board ns (os ++ [o]) s' := by
  simp only [Candidate.names, List.forall_mem_cons] at hn
  obtain ⟨h0, hr, hc, hb, -⟩ := hn
  obtain ⟨s₁, s₂, s₃, s₄, e₁, e₂, e₃, e₄, hbuilt, hframe, hone, hnames⟩ :=
    h.toBuilt.newRows ⟨h0, hr, hc, hb⟩ rfl (by omega)
  generalize hbase : 1 + ns.length + 4 * os.length = b at *
  generalize ht : ((s₄.nodes.putLeft b (b + 1)).putLeft b (b + 2)).putLeft b (b + 3) = t
  have r1 := Nodes.putLeft_ring hone (y := b + 1) (by simp)
  have r2 := Nodes.putLeft_ring r1 (y := b + 2) (by simp)
  have r3 := Nodes.putLeft_ring r2 (y := b + 3) (by simp)
  have hother : ∀ k, (∀ z ∈ k, z < b) → Ring s.nodes.right s.nodes.left k →
      Ring t.right t.left k := by
    intro k hk hring
    have k0 : Ring s₄.nodes.right s₄.nodes.left k :=
      hring.congr (fun z hz => (hframe z (hk z hz)).1) (fun z hz => (hframe z (hk z hz)).2.1)
    have hne : ∀ z ∈ k, z ≠ b ∧ z ≠ b + 1 ∧ z ≠ b + 2 ∧ z ≠ b + 3 := by
      intro z hz
      have := hk z hz
      omega
    have k1 := Nodes.putLeft_other hone k0 (y := b + 1) fun z hz => by simp [hne z hz]
    have k2 := Nodes.putLeft_other r1 k1 (y := b + 2) fun z hz => by simp [hne z hz]
    rw [← ht]
    exact Nodes.putLeft_other r2 k2 (y := b + 3) fun z hz => by simp [hne z hz]
  have hlen : 4 * (os ++ [o]).length = 4 * os.length + 4 := by simp; omega
  have hname : t.name = s₄.nodes.name := by rw [← ht]; rfl
  refine ⟨{ s₄ with nodes := t }, ?_, ?_, ?_⟩
  · simp only [SudokuSolver.appendRow, e₁, e₂, e₃, e₄, ok_bind, ht]
    rfl
  · have hheads : Ring t.right t.left (0 :: headNodes ns) := by
      refine hother _ (fun z hz => ?_) h.heads
      rcases List.mem_cons.mp hz with rfl | hz
      · omega
      · have := mem_headNodes.mp hz
        omega
    rw [hlen]
    subst ht
    exact { hbuilt with heads := hheads }
  · intro i p hi
    change Ring t.right t.left (rowAt ns i) ∧ (rowAt ns i).map t.name = p.names
    rw [hname]
    rcases Nat.lt_or_ge i os.length with hlt | hge
    · rw [List.getElem?_append_left hlt] at hi
      obtain ⟨hring, hmap⟩ := h.rows i p hi
      have hbelow : ∀ z ∈ rowAt ns i, z < b := by
        intro z hz
        have := List.mem_range'_1.mp hz
        omega
      refine ⟨hother _ hbelow hring, ?_⟩
      rw [← hmap]
      exact List.map_congr_left fun z hz => (hframe z (hbelow z hz)).2.2
    · obtain ⟨rfl, rfl⟩ : i = os.length ∧ p = o := by
        rw [List.getElem?_append_right hge, List.getElem?_singleton] at hi
        split at hi
        · exact ⟨by omega, (Option.some.inj hi).symm⟩
        · cases hi
      have hrow : rowAt ns os.length = [b, b + 1, b + 2, b + 3] := by rw [rowAt, hbase]; rfl
      rw [hrow]
      exact ⟨ht ▸ r3, hnames⟩

end

section

open SudokuSolver

variable {board : Nat → Int} {ns : List Nat} {i v u n : Nat} {s : SudokuSolver} {o : Candidate}

theorem given_iff {unit : Nat → Nat} : given unit board u v = true ↔
    ∃ i < kCells, unit i = u ∧ board i = v := by
  have hloop : ∀ (l : List Nat) (seen : Nat → Int → Bool), l.foldl
      (fun seen i => update seen (unit i) (update (seen (unit i)) (board i) true)) seen u v = true ↔
      seen u v = true ∨ ∃ i ∈ l, unit i = u ∧ board i = v := by
    intro l
    induction l with
    | nil => simp
    | cons i l ih =>
      intro seen
      rw [List.foldl_cons, ih, List.exists_mem_cons_iff, ← or_assoc]
      refine or_congr_left ?_
      by_cases hu : u = unit i
      · subst hu
        rw [update_self]
        by_cases hv : (v : Int) = board i
        · simp [hv]
        · rw [update_of_ne hv]
          simp [Ne.symm hv]
      · rw [update_of_ne hu]
        simp [Ne.symm hu]
  rw [given, hloop]
  simp

def keepUnless {α : Type*} (skip : Bool) (x : α) : List α := if skip then [] else [x]

theorem mem_keepUnless {α : Type*} {skip : Bool} {x y : α} :
    y ∈ keepUnless skip x ↔ skip = false ∧ y = x := by
  cases skip <;> simp [keepUnless]

theorem keepUnless_sublist {α : Type*} (skip : Bool) (x : α) : (keepUnless skip x).Sublist [x] := by
  cases skip
  · exact List.Sublist.refl _
  · exact List.nil_sublist _

def unitNames (i v : Nat) (row col box : Bool) : List Nat :=
  keepUnless row (getRowCol i v) ++ (keepUnless col (getColCol i v) ++ keepUnless box (getBoxCol i v))

/-- The names of the columns, in the order in which the constructor makes them. -/
def columnNames (board : Nat → Int) : List Nat :=
  (List.range kCells).flatMap (fun i => keepUnless (board i ≠ 0) i) ++
    (List.range 9).flatMap fun i => (List.range' 1 9).flatMap fun v =>
      unitNames i v (given rowOf board i v) (given colOf board i v) (given boxOf board i v)

/-- The candidates, in the order in which the constructor makes their rows. -/
def candidates (board : Nat → Int) : List Candidate :=
  (List.range kCells).flatMap fun i =>
    if board i = 0 then
      (List.range' 1 9).flatMap fun v => keepUnless (excluded board i v) ⟨i, v⟩
    else []

theorem flatMap_sublist {α β : Type*} {l : List α} {f g : α → List β}
    (h : ∀ x ∈ l, (f x).Sublist (g x)) : (l.flatMap f).Sublist (l.flatMap g) := by
  induction l with
  | nil => exact List.Sublist.refl _
  | cons x l ih =>
    obtain ⟨hx, hl⟩ := List.forall_mem_cons.mp h
    exact hx.append (ih hl)

/-- Items that tell which part they come from do not occur in two parts. -/
theorem nodup_flatMap_of_key {α β : Type*} {l : List α} {f : α → List β} (key : β → α)
    (hl : l.Nodup) (hf : ∀ x ∈ l, (f x).Nodup) (hkey : ∀ x ∈ l, ∀ y ∈ f x, key y = x) :
    (l.flatMap f).Nodup := by
  refine List.nodup_flatMap.mpr ⟨hf, List.Pairwise.imp_of_mem ?_ hl⟩
  intro x z hx hz hne y hyx hyz
  exact hne ((hkey x hx y hyx).symm.trans (hkey z hz y hyz))

/-- The names of the columns of an empty board. -/
def allNames : List Nat :=
  (List.range kCells).flatMap (fun i => [i]) ++
    (List.range 9).flatMap fun i => (List.range' 1 9).flatMap fun v =>
      [getRowCol i v] ++ ([getColCol i v] ++ [getBoxCol i v])

theorem columnNames_sublist : (columnNames board).Sublist allNames := by
  refine (flatMap_sublist fun i _ => keepUnless_sublist ..).append ?_
  refine flatMap_sublist fun i _ => flatMap_sublist fun v _ => ?_
  exact (keepUnless_sublist ..).append ((keepUnless_sublist ..).append (keepUnless_sublist ..))

/-- A name tells its unit and value. -/
theorem allNames_digits (hu : u ∈ List.range 9) (hv : v ∈ List.range' 1 9)
    (hn : n ∈ [getRowCol u v] ++ ([getColCol u v] ++ [getBoxCol u v])) :
    100 ≤ n ∧ n % 100 / 10 = u ∧ n % 10 = v := by
  have hu := List.mem_range.mp hu
  have hv := List.mem_range'_1.mp hv
  simp only [getRowCol, getColCol, getBoxCol, kRow, kCol, kBox, List.mem_append,
    List.mem_singleton] at hn
  omega

theorem allNames_nodup : allNames.Nodup := by
  refine List.nodup_append.mpr ⟨?_, ?_, ?_⟩
  · exact nodup_flatMap_of_key id List.nodup_range (fun i _ => List.nodup_singleton i)
      fun i _ n hn => List.mem_singleton.mp hn
  · refine nodup_flatMap_of_key (fun n => n % 100 / 10) List.nodup_range (fun u hu => ?_) ?_
    · refine nodup_flatMap_of_key (fun n => n % 10) List.nodup_range' (fun v _ => ?_) ?_
      · simp [getRowCol, getColCol, getBoxCol, kRow, kCol, kBox]
      · intro v hv n hn
        exact (allNames_digits hu hv hn).2.2
    · intro u hu n hn
      obtain ⟨v, hv, hn⟩ := List.mem_flatMap.mp hn
      exact (allNames_digits hu hv hn).2.1
  · rintro n hn m hm rfl
    obtain ⟨i, hi, hn⟩ := List.mem_flatMap.mp hn
    obtain ⟨u, hu, hm⟩ := List.mem_flatMap.mp hm
    obtain ⟨v, hv, hm⟩ := List.mem_flatMap.mp hm
    obtain rfl := List.mem_singleton.mp hn
    have hlt : n < 81 := List.mem_range.mp hi
    have hge := (allNames_digits hu hv hm).1
    omega

theorem columnNames_nodup : (columnNames board).Nodup :=
  columnNames_sublist.nodup allNames_nodup

theorem columnNames_length : (columnNames board).length ≤ 324 :=
  columnNames_sublist.length_le.trans_eq (by simp [allNames, kCells])

def allCandidates : List Candidate :=
  (List.range kCells).flatMap fun i => (List.range' 1 9).flatMap fun v => [⟨i, v⟩]

theorem candidates_sublist : (candidates board).Sublist allCandidates := by
  refine flatMap_sublist fun i _ => ?_
  split
  · exact flatMap_sublist fun v _ => keepUnless_sublist ..
  · exact List.nil_sublist _

theorem allCandidates_nodup : allCandidates.Nodup := by
  refine nodup_flatMap_of_key Candidate.cell List.nodup_range (fun i _ => ?_) ?_
  · refine nodup_flatMap_of_key Candidate.val List.nodup_range' (fun v _ => ?_) ?_
    · exact List.nodup_singleton _
    · intro v _ o ho
      rw [List.mem_singleton.mp ho]
  · intro i _ o ho
    obtain ⟨v, -, ho⟩ := List.mem_flatMap.mp ho
    rw [List.mem_singleton.mp ho]

theorem candidates_nodup : (candidates board).Nodup :=
  candidates_sublist.nodup allCandidates_nodup

theorem candidates_length : (candidates board).length ≤ 729 :=
  candidates_sublist.length_le.trans_eq (by simp [allCandidates, kCells])

theorem mem_candidates : o ∈ candidates board ↔
    o.legal ∧ board o.cell = 0 ∧ excluded board o.cell o.val = false := by
  obtain ⟨i, v⟩ := o
  simp only [candidates, List.mem_flatMap, List.mem_range, Candidate.legal]
  constructor
  · rintro ⟨i', hi, hm⟩
    split at hm
    · obtain ⟨v', hv, hm⟩ := List.mem_flatMap.mp hm
      obtain ⟨he, heq⟩ := mem_keepUnless.mp hm
      obtain ⟨rfl, rfl⟩ := Candidate.mk.inj heq
      have hv := List.mem_range'_1.mp hv
      exact ⟨⟨hi, by omega, by omega⟩, by assumption, he⟩
    · cases hm
  · rintro ⟨⟨hi, hv, hv'⟩, hzero, hex⟩
    refine ⟨i, hi, ?_⟩
    rw [if_pos hzero]
    exact List.mem_flatMap.mpr ⟨v, List.mem_range'_1.mpr (by omega),
      mem_keepUnless.mpr ⟨hex, rfl⟩⟩

theorem cell_mem_columnNames (hi : i < kCells) (hzero : board i = 0) : i ∈ columnNames board := by
  refine List.mem_append_left _ (List.mem_flatMap.mpr ⟨i, List.mem_range.mpr hi, ?_⟩)
  exact mem_keepUnless.mpr ⟨by simp [hzero], rfl⟩

theorem unit_mem_columnNames (hu : u < 9) (hv : 1 ≤ v ∧ v < 10)
    (hn : n ∈ unitNames u v (given rowOf board u v) (given colOf board u v)
      (given boxOf board u v)) : n ∈ columnNames board := by
  refine List.mem_append_right _ (List.mem_flatMap.mpr ⟨u, List.mem_range.mpr hu, ?_⟩)
  exact List.mem_flatMap.mpr ⟨v, List.mem_range'_1.mpr (by omega), hn⟩

theorem rowOf_lt (hi : i < kCells) : rowOf i < 9 := by
  simp only [rowOf, kCells] at *
  omega

theorem colOf_lt : colOf i < 9 := Nat.mod_lt _ (by decide)

theorem boxOf_lt (hi : i < kCells) : boxOf i < 9 := by
  simp only [boxOf, rowOf, colOf, kCells] at *
  omega

/-- A candidate's columns are not left out. -/
theorem names_mem_columnNames (ho : o ∈ candidates board) :
    ∀ n ∈ o.names, n ∈ columnNames board := by
  obtain ⟨⟨hi, hv⟩, hzero, hex⟩ := mem_candidates.mp ho
  simp only [excluded, Bool.or_eq_false_iff] at hex
  obtain ⟨⟨hrow, hcol⟩, hbox⟩ := hex
  simp only [Candidate.names, List.forall_mem_cons]
  refine ⟨cell_mem_columnNames hi hzero, ?_, ?_, ?_, by simp⟩
  · exact unit_mem_columnNames (rowOf_lt hi) hv (by simp [unitNames, mem_keepUnless, hrow])
  · exact unit_mem_columnNames (@colOf_lt o.cell) hv (by simp [unitNames, mem_keepUnless, hcol])
  · exact unit_mem_columnNames (boxOf_lt hi) hv (by simp [unitNames, mem_keepUnless, hbox])

/-- The columns on the way to all of them. -/
def MakesColumns (board : Nat → Int) : (SudokuSolver → Except Fault SudokuSolver) → List Nat → Prop :=
  Grows (fun ns s => Built board ns 0 s) (columnNames board)

theorem appendUnless_makes (skip : Bool) (n : Nat) :
    MakesColumns board (fun s => s.appendUnless skip n) (keepUnless skip n) := by
  cases skip with
  | true => exact Grows.skip
  | false =>
    intro ns s h hp
    have hnodup : (ns ++ [n]).Nodup := hp.sublist.nodup columnNames_nodup
    have hlen := hp.length_le.trans columnNames_length
    have hone : (keepUnless false n).length = 1 := rfl
    rw [List.length_append, hone] at hlen
    have hn : n ∉ ns := fun hm => (List.nodup_append.mp hnodup).2.2 n hm n List.mem_cons_self rfl
    exact h.appendColumn hn (by simp only [kMaxNodes]; omega)

theorem columns_make : MakesColumns board
    (fun s => appendCellColumns board s >>= appendUnitColumns board) (columnNames board) := by
  refine Grows.andThen (Grows.forEach fun i _ => appendUnless_makes _ i) ?_
  refine Grows.forEach fun i _ => Grows.forEach fun v _ => ?_
  refine Grows.andThen (appendUnless_makes _ _) ?_
  exact Grows.andThen (appendUnless_makes _ _) (appendUnless_makes _ _)

theorem rows_make : Grows (fun os s => Filled board (columnNames board) os s) (candidates board)
    (appendRows board) (candidates board) := by
  refine Grows.forEach fun i _ => ?_
  split
  · refine Grows.forEach fun v _ => ?_
    cases hex : excluded board i v with
    | true => exact Grows.skip
    | false =>
      intro os s h hp
      have hmem : ⟨i, v⟩ ∈ candidates board := hp.subset (by simp [keepUnless])
      have hlen := hp.length_le.trans candidates_length
      have hcols := @columnNames_length board
      have hone : (keepUnless false (⟨i, v⟩ : Candidate)).length = 1 := rfl
      rw [List.length_append, hone] at hlen
      exact h.appendRow (names_mem_columnNames hmem) (by simp only [kMaxNodes]; omega)
  · exact Grows.skip

/-- The constructor's assertions hold, and it makes the columns and the rows of the candidates. -/
theorem new_filled (board : Nat → Int) :
    ∃ s, SudokuSolver.new board = .ok s ∧ Filled board (columnNames board) (candidates board) s := by
  obtain ⟨s₀, hs₀⟩ : ∃ s₀, s₀ = { initial board with
    curNode := 1
    nodes := (initial board).nodes.init 0 0 0 } := ⟨_, rfl⟩
  have hroot : (initial board).newColumn 0 = .ok (0, s₀) := by
    have hroom : (initial board).curNode < kMaxNodes := by simp only [initial, kMaxNodes]; omega
    rw [newColumn, check_pos hroom, hs₀]
    rfl
  obtain ⟨s₁, hs₁⟩ : ∃ s₁, s₁ = { s₀ with
    root := 0
    nodes := { s₀.nodes with
      right := update s₀.nodes.right 0 0
      left := update s₀.nodes.left 0 0 } } := ⟨_, rfl⟩
  have hright : s₁.nodes.right 0 = 0 := by rw [hs₁]; exact update_self 0 0 s₀.nodes.right
  have hleft : s₁.nodes.left 0 = 0 := by rw [hs₁]; exact update_self 0 0 s₀.nodes.left
  have hbuilt : Built board [] 0 s₁ := by
    refine ⟨?_, ?_, ?_, ?_, ?_, ring_singleton hright hleft, rfl, nofun, nofun, nofun, nofun⟩
    all_goals subst hs₁ hs₀
    · rfl
    · rfl
    · rfl
    · rfl
    · exact fun n => by simp [initial]
  obtain ⟨s₂, hcolumns, h₂⟩ := columns_make.all hbuilt
  have hfilled : Filled board (columnNames board) [] s₂ := ⟨h₂, nofun⟩
  obtain ⟨s₃, hrows, h₃⟩ := rows_make.all hfilled
  refine ⟨s₃, ?_, h₃⟩
  obtain ⟨s', hcells, hunits⟩ := bind_ok hcolumns
  simp only [SudokuSolver.new, hroot, ok_bind, ← hs₁, hcells, hunits, hrows]

theorem rowAt_flatMap (ns : List Nat) (k : Nat) :
    (List.range k).flatMap (rowAt ns) = rowNodes ns (4 * k) := by
  induction k with
  | zero => rfl
  | succ k ih =>
    rw [List.range_succ, List.flatMap_append, ih, List.flatMap_singleton, rowNodes, rowAt, rowNodes,
      List.range'_append_1, Nat.mul_succ]

theorem map_idxOf {α : Type*} [DecidableEq α] {l : List α} (hl : l.Nodup) :
    l.map (l.idxOf ·) = List.range l.length := by
  refine List.ext_getElem (by simp) fun i hi hi' => ?_
  rw [List.getElem_map, List.getElem_range, hl.idxOf_getElem]

theorem rows_flatMap {os : List Candidate} (hos : os.Nodup) :
    os.flatMap (fun o => rowAt ns (os.idxOf o)) = rowNodes ns (4 * os.length) := by
  rw [← rowAt_flatMap, ← map_idxOf hos, List.flatMap_map]

theorem nodes_eq (ns : List Nat) (m : Nat) :
    0 :: headNodes ns ++ rowNodes ns m = List.range' 0 (1 + ns.length + m) := by
  rw [headNodes, rowNodes, ← List.range'_append_1, Nat.zero_add, Nat.add_comm 1, List.range'_succ]

theorem Filled.row_eq {os : List Candidate} (h : Filled board ns os s) (ho : o ∈ os) :
    Ring s.nodes.right s.nodes.left (rowAt ns (os.idxOf o)) ∧
      (rowAt ns (os.idxOf o)).map s.nodes.name = o.names := by
  have hlt : os.idxOf o < os.length := List.idxOf_lt_length_iff.mpr ho
  exact h.rows _ o (by rw [List.getElem?_eq_getElem hlt, List.getElem_idxOf])

theorem Filled.mem_rowNodes {os : List Candidate} (hos : os.Nodup) {x : Nat} (ho : o ∈ os)
    (hx : x ∈ rowAt ns (os.idxOf o)) : x ∈ rowNodes ns (4 * os.length) := by
  rw [← rows_flatMap hos]
  exact List.mem_flatMap.mpr ⟨o, ho, hx⟩

theorem names_nodup (ho : o.legal) : o.names.Nodup := by
  obtain ⟨hi, -⟩ := ho
  simp only [kCells] at hi
  simp [Candidate.names, getRowCol, getColCol, getBoxCol, kRow, kCol, kBox]
  simp only [rowOf, colOf, boxOf]
  omega

/-- The exact cover problem that the constructor has laid out. -/
def incidence (h : Filled board (columnNames board) (candidates board) s) :
    Incidence Candidate where
  root := 0
  heads := headNodes (columnNames board)
  options := candidates board
  row o := rowAt (columnNames board) ((candidates board).idxOf o)
  col := s.nodes.col
  name := s.nodes.name
  nodup := by
    rw [rows_flatMap candidates_nodup, nodes_eq]
    exact List.nodup_range'
  col_head := h.col_head
  col_row _ ho _ hx := h.col_row _ (Filled.mem_rowNodes candidates_nodup ho hx)
  distinct o ho := by
    have hnames := (h.row_eq ho).2
    have hcols : (rowAt (columnNames board) ((candidates board).idxOf o)).map s.nodes.name =
        ((rowAt (columnNames board) ((candidates board).idxOf o)).map s.nodes.col).map
          s.nodes.name := by
      rw [List.map_map]
      exact List.map_congr_left fun x hx =>
        h.name_row x (Filled.mem_rowNodes candidates_nodup ho hx)
    refine List.Nodup.of_map s.nodes.name ?_
    rw [← hcols, hnames]
    exact names_nodup (mem_candidates.mp ho).1
  small := by
    rw [rows_flatMap candidates_nodup, nodes_eq, List.length_range', kMaxNodes]
    have hns := @columnNames_length board
    have hos := @candidates_length board
    omega

theorem incidence_encodes (h : Filled board (columnNames board) (candidates board) s) :
    Encodes (incidence h) :=
  ⟨fun _ ho => (h.row_eq ho).2, fun _ ho => (mem_candidates.mp ho).1⟩

theorem incidence_shows (h : Filled board (columnNames board) (candidates board) s) :
    Shows (incidence h) [] s.nodes := by
  have hopen : (incidence h).uncovered [] = headNodes (columnNames board) := by
    simp [Incidence.uncovered, incidence]
  refine ⟨?_, fun o ho => (h.row_eq ho).1, ?_, rfl, rfl⟩
  · rw [hopen]
    exact h.heads
  · intro c hc
    rw [hopen] at hc
    have hcolumn : (incidence h).column [] c =
        (rowNodes (columnNames board) (4 * (candidates board).length)).filter
          (s.nodes.col · = c) := by
      rw [← rows_flatMap candidates_nodup]
      refine List.filter_congr fun x hx => ?_
      obtain ⟨o, ho, hx⟩ := List.mem_flatMap.mp hx
      rw [decide_eq_decide]
      exact ⟨And.left, fun hcol => ⟨hcol, o, ho, hx, by simp [Incidence.avoids]⟩⟩
    rw [hcolumn]
    exact h.linked c hc

end

end Muduo.Examples
