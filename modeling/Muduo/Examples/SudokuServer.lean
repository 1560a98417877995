import Muduo.Examples.SudokuGrid
import Muduo.Lib.Framing
import Muduo.Lib.Scanning
import Muduo.Net.HttpContext

namespace Muduo.Examples
open Muduo.Lib Muduo.Net
open Http (findCRLF findCRLF_le findCRLF_append findCRLF_text findCRLF_unended findCRLF_split)

/-- A request as the servers split it. -/
structure SudokuRequest where
  id : Bytes
  puzzle : Bytes
  deriving DecidableEq, Repr

/-- A connection of a server: whether it is connected, what `send` took, the requests handed to
`threadPool_` that no thread has resolved yet, and how often a bad or a too big request was
reported. -/
structure SudokuClient where
  connected : Bool
  sent : List Bytes
  tasks : List SudokuRequest
  bad : Nat
  big : Nat
  deriving DecidableEq, Repr

/-- The recursion of `solve` stays above this depth. -/
def solveDepth : Nat := 325

def solution (puzzle : Bytes) : Except Fault Bytes := do
  match ← solveSudoku solveDepth puzzle with
  | some result => .ok result
  | none => .error .fatal

namespace SudokuClient

def new : SudokuClient := ⟨true, [], [], 0, 0⟩

variable (c : SudokuClient)

def send (text : Bytes) : SudokuClient :=
  if c.connected then { c with sent := c.sent ++ [text] } else c

def shutdown : SudokuClient := { c with connected := false }

def reportBad : SudokuClient :=
  ({ c with bad := c.bad + 1 }.send (ascii "Bad request!\r\n")).shutdown

def reportBig : SudokuClient := { c with big := c.big + 1 }.shutdown

def sendResult (id result : Bytes) : SudokuClient :=
  if id = [] then c.send (result ++ ascii "\r\n")
  else c.send (id ++ ascii ":" ++ result ++ ascii "\r\n")

/-- `resolve` of the `k`-th task; the threads of the pool end in any order. -/
def resolve (k : Nat) : Except Fault SudokuClient :=
  match c.tasks[k]? with
  | none => .ok c
  | some r => do
    let result ← solution r.puzzle
    let c := { c with tasks := c.tasks.eraseIdx k }
    .ok (if c.connected then c.sendResult r.id result else c)

end SudokuClient

/-- The two servers differ in `MAX_DATA_LEN` and in what they do with a well-formed request. -/
structure SudokuServer where
  maxDataLen : Nat
  accept : SudokuClient → SudokuRequest → Except Fault SudokuClient

inductive SudokuEvent
  | message (chunk : Bytes)
  | resolve (k : Nat)

namespace SudokuServer

def basic : SudokuServer where
  maxDataLen := 1024
  accept c r := do
    let result ← solution r.puzzle
    .ok (c.sendResult r.id result)

def threadpool : SudokuServer where
  maxDataLen := 4096
  accept c r := .ok { c with tasks := c.tasks ++ [r] }

/-- The request line is split at the first colon, if it has one. -/
def split (request : Bytes) : SudokuRequest :=
  let colon := request.idxOf 58
  if colon < request.length then ⟨request.take colon, request.drop (colon + 1)⟩
  else ⟨[], request⟩

variable (v : SudokuServer)

def onRequest (c : SudokuClient) (request : Bytes) : Except Fault SudokuClient :=
  let r := split request
  if r.puzzle.length = kCells then v.accept c r else .ok c.reportBad

/-- The loop of `onMessage`; `len` was taken before it. -/
def loop (len : Nat) (c : SudokuClient) (buff : Bytes) : Except Fault (SudokuClient × Bytes) :=
  if kCells + 2 ≤ len then
    match _h : findCRLF buff with
    | none => .ok (if v.maxDataLen ≤ len then c.reportBig else c, buff)
    | some crlf => do
      let c ← v.onRequest c (buff.take crlf)
      loop len c (buff.drop (crlf + 2))
  else .ok (c, buff)
termination_by buff.length
decreasing_by
  have := findCRLF_le _h
  rw [List.length_drop]
  omega

def onMessage (c : SudokuClient) (buff : Bytes) : Except Fault (SudokuClient × Bytes) :=
  v.loop buff.length c buff

/-- A chunk arrives behind what is left in the buffer, or the pool resolves a task. -/
def step (s : SudokuClient × Bytes) : SudokuEvent → Except Fault (SudokuClient × Bytes)
  | .message chunk => v.onMessage s.1 (s.2 ++ chunk)
  | .resolve k => do
    let c ← s.1.resolve k
    .ok (c, s.2)

def enabled (s : SudokuClient × Bytes) : SudokuEvent → Prop
  | .message _ => True
  | .resolve k => k < s.1.tasks.length

def machine : Machine (SudokuClient × Bytes) SudokuEvent Fault := ⟨enabled, v.step⟩

/-- What stands in front of the first end of a line. -/
def front (buff : Bytes) : Front Bytes Fault :=
  match findCRLF buff with
  | none => .wait
  | some crlf => .item (buff.take crlf) (crlf + 2)

theorem front_bounds {buff line : Bytes} {n : Nat} (h : front buff = .item line n) :
    0 < n ∧ n ≤ buff.length := by
  unfold front at h
  split at h
  · cases h
  · rename_i crlf hcrlf
    cases h
    exact ⟨by omega, findCRLF_le hcrlf⟩

theorem front_stable {buff : Bytes} (more : Bytes) (h : front buff ≠ .wait) :
    front (buff ++ more) = front buff := by
  unfold front at h ⊢
  cases hcrlf : findCRLF buff with
  | none => exact absurd (by rw [hcrlf]) h
  | some crlf =>
    have hle := findCRLF_le hcrlf
    simp only [findCRLF_append hcrlf more]
    rw [List.take_append_of_le_length (by omega)]

def lines : Scanner Bytes UInt8 Fault := ⟨front, front_bounds, front_stable⟩

theorem front_none {buff : Bytes} (h : findCRLF buff = none) : lines.front buff = .wait := by
  change front buff = _
  rw [front, h]

theorem front_some {buff : Bytes} {crlf : Nat} (h : findCRLF buff = some crlf) :
    lines.front buff = .item (buff.take crlf) (crlf + 2) := by
  change front buff = _
  rw [front, h]

theorem lines_ok (buff : Bytes) : ∃ t, lines.scan buff = .ok t := by
  induction buff using Scanner.scan.induct lines with
  | case1 buff hw => exact ⟨_, Scanner.scan_wait hw⟩
  | case2 buff f hf =>
    change front buff = _ at hf
    unfold front at hf
    split at hf <;> cases hf
  | case3 buff line n hi ih =>
    obtain ⟨t, ht⟩ := ih
    exact ⟨_, by rw [Scanner.scan_item hi, ht, ok_bind]⟩

/-- From its guard on, the loop takes every line there is, and then compares the length that
all of them had. -/
theorem loop_eq {len : Nat} (hlen : kCells + 2 ≤ len) (c : SudokuClient) (buff : Bytes) :
    v.loop len c buff = lines.scan buff >>= fun t => t.1.foldlM v.onRequest c >>= fun c =>
      .ok (if v.maxDataLen ≤ len then c.reportBig else c, t.2) := by
  induction buff using Scanner.scan.induct lines generalizing c with
  | case1 buff hw =>
    rw [Scanner.scan_wait hw, ok_bind, loop, if_pos hlen]
    split
    · rfl
    · rename_i crlf hcrlf
      cases (front_some hcrlf).symm.trans hw
  | case2 buff f hf =>
    obtain ⟨t, ht⟩ := lines_ok buff
    cases (Scanner.scan_fault hf).symm.trans ht
  | case3 buff line n hi ih =>
    rw [Scanner.scan_item hi, loop, if_pos hlen]
    split
    · rename_i hnone
      cases (front_none hnone).symm.trans hi
    · rename_i crlf hcrlf
      cases (front_some hcrlf).symm.trans hi
      obtain ⟨t, ht⟩ := lines_ok (buff.drop (crlf + 2))
      simp only [ht, ok_bind, List.foldlM_cons] at ih ⊢
      cases v.onRequest c (buff.take crlf) with
      | error f => simp only [error_bind]
      | ok c => simp only [ok_bind, ih]

theorem onMessage_eq (c : SudokuClient) (buff : Bytes) :
    v.onMessage c buff =
      if kCells + 2 ≤ buff.length then
        lines.scan buff >>= fun t => t.1.foldlM v.onRequest c >>= fun c =>
          .ok (if v.maxDataLen ≤ buff.length then c.reportBig else c, t.2)
      else .ok (c, buff) := by
  by_cases hlen : kCells + 2 ≤ buff.length
  · rw [if_pos hlen]
    exact v.loop_eq hlen c buff
  · rw [if_neg hlen, onMessage, loop, if_neg hlen]

end SudokuServer

end Muduo.Examples
