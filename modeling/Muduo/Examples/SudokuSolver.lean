import Muduo.Lib.Ring
import Muduo.Net.Basic

namespace Muduo.Examples
open Muduo.Lib Muduo.Net
open Function (update)

def kCells : Nat := 81

def kMaxNodes : Nat := 1 + 81 * 4 + 9 * 9 * 9 * 4

def kRow : Nat := 100

def kCol : Nat := 200

def kBox : Nat := 300

def kNoSolution : Bytes := ascii "NoSolution"

/-- `nodes_`, field by field; a pointer to a node is its index. -/
structure Nodes where
  left : Nat → Nat
  right : Nat → Nat
  up : Nat → Nat
  down : Nat → Nat
  col : Nat → Nat
  name : Nat → Nat
  size : Nat → Int

namespace Nodes

variable (t : Nodes)

/-- A node that `memset` and the assignments after it leave linked to itself. -/
def init (x col name : Nat) : Nodes where
  left := update t.left x x
  right := update t.right x x
  up := update t.up x x
  down := update t.down x x
  col := update t.col x col
  name := update t.name x name
  size := update t.size x 0

def putLeft (old nnew : Nat) : Nodes :=
  let left := update t.left nnew (t.left old)
  let right := update t.right nnew old
  { t with right := update right (left old) nnew, left := update left old nnew }

def putUp (old nnew : Nat) : Nodes :=
  let up := update t.up nnew (t.up old)
  let down := update t.down nnew old
  { t with
    down := update down (up old) nnew
    up := update up old nnew
    size := update t.size old (t.size old + 1)
    col := update t.col nnew old }

/-- The body of the inner loop of `cover`. -/
def detach (j : Nat) : Nodes :=
  let up := update t.up (t.down j) (t.up j)
  { t with
    up := up
    down := update t.down (up j) (t.down j)
    size := update t.size (t.col j) (t.size (t.col j) - 1) }

/-- The body of the inner loop of `uncover`. -/
def attach (j : Nat) : Nodes :=
  let up := update t.up (t.down j) j
  { t with
    size := update t.size (t.col j) (t.size (t.col j) + 1)
    up := up
    down := update t.down (up j) j }

/-- The first two lines of `cover`. -/
def dropHead (c : Nat) : Nodes :=
  let left := update t.left (t.right c) (t.left c)
  { t with left := left, right := update t.right (left c) (t.right c) }

/-- The last two lines of `uncover`. -/
def restoreHead (c : Nat) : Nodes :=
  let left := update t.left (t.right c) c
  { t with left := left, right := update t.right (left c) c }

def detachRow (row : Nat) (t : Nodes) : Option Nodes :=
  walk right (fun j t => some (t.detach j)) row kMaxNodes (t.right row) t

def attachRow (row : Nat) (t : Nodes) : Option Nodes :=
  walk left (fun j t => some (t.attach j)) row kMaxNodes (t.left row) t

/-- No ring has more than the `kMaxNodes` nodes there are, so that no loop is cut off. -/
def cover (c : Nat) : Option Nodes :=
  walk down detachRow c kMaxNodes ((t.dropHead c).down c) (t.dropHead c)

def uncover (c : Nat) : Option Nodes :=
  (walk up attachRow c kMaxNodes (t.up c) t).map fun t => t.restoreHead c

/-- The loop of `get_min_column` from `cc` on. -/
def minColumn (root : Nat) : Nat → Nat → Nat → Int → Option Nat
  | 0, _, _, _ => none
  | fuel + 1, cc, c, minSize =>
    if cc = root then some c
    else if minSize > t.size cc then
      if t.size cc ≤ 1 then some cc else minColumn root fuel (t.right cc) cc (t.size cc)
    else minColumn root fuel (t.right cc) c minSize

def getMinColumn (root : Nat) : Option Nat :=
  let c := t.right root
  if t.size c > 1 then t.minColumn root kMaxNodes (t.right c) c (t.size c) else some c

/-- The loop that reads `cell` and `val` off the row of `n`. -/
def readRow : Nat → Nat → Int → Int → Option (Int × Int)
  | 0, _, _, _ => none
  | fuel + 1, n, cell, val =>
    if cell = -1 ∨ val = -1 then
      if t.name n < 100 then readRow fuel (t.right n) (t.name n) val
      else readRow fuel (t.right n) cell (t.name n % 10)
    else some (cell, val)

/-- What is read off the chosen rows goes into the board. -/
def readBack (inout : Nat → Int) (stack : List Nat) : Option (Nat → Int) :=
  stack.foldlM (fun inout n => do
    let (cell, val) ← t.readRow kMaxNodes n (-1) (-1)
    return update inout cell.toNat val) inout

end Nodes

structure SudokuSolver where
  nodes : Nodes
  root : Nat
  columns : Nat → Option Nat
  curNode : Nat
  inout : Nat → Int
  stack : List Nat

namespace SudokuSolver

def getRowCol (row val : Nat) : Nat := kRow + row * 10 + val

def getColCol (col val : Nat) : Nat := kCol + col * 10 + val

def getBoxCol (box val : Nat) : Nat := kBox + box * 10 + val

def rowOf (i : Nat) : Nat := i / 9

def colOf (i : Nat) : Nat := i % 9

def boxOf (i : Nat) : Nat := rowOf i / 3 * 3 + colOf i / 3

/-- `rows`, `cols` or `boxes`: the values given in each unit. -/
def given (unit : Nat → Nat) (board : Nat → Int) : Nat → Int → Bool :=
  (List.range kCells).foldl
    (fun seen i => update seen (unit i) (update (seen (unit i)) (board i) true))
    (fun _ _ => false)

section

variable (s : SudokuSolver)

def newColumn (n : Nat) : Except Fault (Nat × SudokuSolver) := do
  check (s.curNode < kMaxNodes)
  let c := s.curNode
  return (c, { s with curNode := c + 1, nodes := s.nodes.init c c n })

def appendColumn (n : Nat) : Except Fault SudokuSolver := do
  check (s.columns n = none)
  let (c, s) ← s.newColumn n
  return { s with nodes := s.nodes.putLeft s.root c, columns := update s.columns n (some c) }

def newRow (col : Nat) : Except Fault (Nat × SudokuSolver) :=
  match s.columns col with
  | none => .error .assertion
  | some c => do
    check (s.curNode < kMaxNodes)
    let r := s.curNode
    return (r, { s with curNode := r + 1, nodes := (s.nodes.init r c col).putUp c r })

/-- The nodes for the value `v` in the cell `i`. -/
def appendRow (i v : Nat) : Except Fault SudokuSolver := do
  let (n0, s) ← s.newRow i
  let (nr, s) ← s.newRow (getRowCol (rowOf i) v)
  let (nc, s) ← s.newRow (getColCol (colOf i) v)
  let (nb, s) ← s.newRow (getBoxCol (boxOf i) v)
  return { s with nodes := ((s.nodes.putLeft n0 nr).putLeft n0 nc).putLeft n0 nb }

def appendUnless (skip : Bool) (n : Nat) : Except Fault SudokuSolver :=
  if skip then .ok s else s.appendColumn n

end

section

variable (board : Nat → Int)

def appendCellColumns (s : SudokuSolver) : Except Fault SudokuSolver :=
  (List.range kCells).foldlM (fun s i => s.appendUnless (board i ≠ 0) i) s

def appendUnitColumns (s : SudokuSolver) : Except Fault SudokuSolver :=
  (List.range 9).foldlM (fun s i => (List.range' 1 9).foldlM (fun s (v : Nat) => do
    let s ← s.appendUnless (given rowOf board i v) (getRowCol i v)
    let s ← s.appendUnless (given colOf board i v) (getColCol i v)
    s.appendUnless (given boxOf board i v) (getBoxCol i v)) s) s

def excluded (i v : Nat) : Bool :=
  given rowOf board (rowOf i) v || given colOf board (colOf i) v || given boxOf board (boxOf i) v

def appendRows (s : SudokuSolver) : Except Fault SudokuSolver :=
  (List.range kCells).foldlM (fun s i =>
    if board i = 0 then (List.range' 1 9).foldlM (fun s (v : Nat) =>
      if excluded board i v then .ok s else s.appendRow i v) s
    else .ok s) s

/-- The members before the constructor's body; `nodes_` is cleared node by node as they are
taken. -/
def initial : SudokuSolver where
  nodes := ⟨fun _ => 0, fun _ => 0, fun _ => 0, fun _ => 0, fun _ => 0, fun _ => 0, fun _ => 0⟩
  root := 0
  columns := fun _ => none
  curNode := 0
  inout := board
  stack := []

def new : Except Fault SudokuSolver := do
  let (root, s) ← (initial board).newColumn 0
  let nodes := { s.nodes with
    right := update s.nodes.right root root
    left := update s.nodes.left root root }
  let s ← appendCellColumns board { s with root := root, nodes := nodes }
  let s ← appendUnitColumns board s
  appendRows board s

end

/-- The loop of `solve` over the rows of a column; it ends early once one leads to a solution. -/
def tryRows (solve : SudokuSolver → Option (Bool × SudokuSolver)) (col : Nat) :
    Nat → Nat → SudokuSolver → Option (Bool × SudokuSolver)
  | 0, _, _ => none
  | fuel + 1, row, s =>
    if row = col then some (false, s)
    else do
      let nodes ← walk Nodes.right (fun j t => t.cover (t.col j)) row kMaxNodes
        (s.nodes.right row) s.nodes
      let (done, s) ← solve { s with stack := s.stack ++ [row], nodes := nodes }
      if done then some (true, s)
      else
        let nodes ← walk Nodes.left (fun j t => t.uncover (t.col j)) row kMaxNodes
          (s.nodes.left row) s.nodes
        tryRows solve col fuel (nodes.down row)
          { s with stack := s.stack.dropLast, nodes := nodes }

/-- `solve`, cut off below the given depth of the recursion. -/
def solve : Nat → SudokuSolver → Option (Bool × SudokuSolver)
  | 0, _ => none
  | depth + 1, s =>
    if s.nodes.left s.root = s.root then do
      let inout ← s.nodes.readBack s.inout s.stack
      some (true, { s with inout := inout })
    else do
      let col ← s.nodes.getMinColumn s.root
      let nodes ← s.nodes.cover col
      let (done, s) ← tryRows (solve depth) col kMaxNodes (nodes.down col) { s with nodes := nodes }
      if done then some (true, s)
      else
        let nodes ← s.nodes.uncover col
        some (false, { s with nodes := nodes })

end SudokuSolver

/-- `puzzle[i] - '0'`, with a signed `char`. -/
def boardOf (puzzle : Bytes) (i : Nat) : Int := Word.toSigned 8 (puzzle.getD i 0).toNat - 48

def resultOf (board : Nat → Int) : Bytes :=
  (List.range kCells).map fun i => UInt8.ofNat (board i + 48).toNat

/-- `none` when the search goes below the given depth of the recursion. -/
def solveSudoku (depth : Nat) (puzzle : Bytes) : Except Fault (Option Bytes) := do
  check (puzzle.length = kCells)
  if (List.range kCells).all fun i => 0 ≤ boardOf puzzle i ∧ boardOf puzzle i ≤ 9 then
    let s ← SudokuSolver.new (boardOf puzzle)
    return (s.solve depth).map fun r => if r.1 then resultOf r.2.inout else kNoSolution
  else return some kNoSolution

end Muduo.Examples
