import Muduo.Examples.SudokuServer

namespace Muduo.Examples
open Muduo.Lib Muduo.Net
open Http (findCRLF findCRLF_le findCRLF_append findCRLF_text findCRLF_unended findCRLF_split)

/-- A line of a client, without its end. -/
structure SudokuLine where
  id : Option Bytes
  puzzle : Bytes
  deriving DecidableEq, Repr

namespace SudokuLine

def text (l : SudokuLine) : Bytes :=
  match l.id with
  | none => l.puzzle
  | some id => id ++ 58 :: l.puzzle

def encode (l : SudokuLine) : Bytes := l.text ++ [13, 10]

def request (l : SudokuLine) : SudokuRequest := ⟨l.id.getD [], l.puzzle⟩

structure Valid (l : SudokuLine) : Prop where
  puzzle : l.puzzle.length = kCells
  id : ∀ id, l.id = some id → ∀ b ∈ id, b ≠ 58 ∧ b ≠ 13 ∧ b ≠ 10

/-- The puzzle holds no end of a line, nor what would end an id. -/
def Plain (l : SudokuLine) : Prop := findCRLF l.puzzle = none ∧ (l.id = none → 58 ∉ l.puzzle)

variable {l : SudokuLine}

theorem findCRLF_skip {a b : Bytes} (h : ∀ x ∈ a, x ≠ 13) :
    findCRLF (a ++ b) = (findCRLF b).map (· + a.length) := by
  induction a with
  | nil =>
    rw [List.nil_append]
    cases findCRLF b <;> rfl
  | cons x a ih =>
    rw [List.cons_append, Http.findCRLF, if_neg fun hc => h x List.mem_cons_self hc.1,
      ih fun y hy => h y (List.mem_cons_of_mem x hy)]
    cases findCRLF b with
    | none => rfl
    | some n => simp [Nat.add_assoc]

/-- The end of a line found in a text is found in its puzzle. -/
theorem findCRLF_line (h : l.Valid) (rest : Bytes) : findCRLF (l.text ++ rest) =
    (findCRLF (l.puzzle ++ rest)).map (· + (l.text.length - l.puzzle.length)) := by
  cases hid : l.id with
  | none =>
    simp only [text, hid, Nat.sub_self, Nat.add_zero]
    cases findCRLF (l.puzzle ++ rest) <;> rfl
  | some id =>
    have hskip := findCRLF_skip (a := id ++ [58]) (b := l.puzzle ++ rest) (by
      intro x hx
      rcases List.mem_append.mp hx with hx | hx
      · exact (h.id id hid x hx).2.1
      · rw [List.mem_singleton.mp hx]
        decide)
    have hlen : (id ++ 58 :: l.puzzle).length - l.puzzle.length = (id ++ [(58 : UInt8)]).length := by
      simp only [List.length_append, List.length_cons, List.length_nil]
      omega
    simp only [text, hid, hlen]
    rw [← hskip]
    simp

theorem text_plain (h : l.Valid) (hp : l.Plain) : findCRLF l.text = none := by
  have hline := findCRLF_line h []
  rw [List.append_nil, List.append_nil, hp.1] at hline
  exact hline

theorem split_id {id puzzle : Bytes} (h : ∀ b ∈ id, b ≠ 58) :
    SudokuServer.split (id ++ 58 :: puzzle) = ⟨id, puzzle⟩ := by
  have hcolon : (id ++ 58 :: puzzle).idxOf 58 = id.length := by
    rw [List.idxOf_append_of_notMem fun hmem => h 58 hmem rfl, List.idxOf_cons_self, Nat.add_zero]
  have hlt : id.length < (id ++ 58 :: puzzle).length := by
    rw [List.length_append, List.length_cons]
    omega
  simp only [SudokuServer.split, hcolon, if_pos hlt, List.take_left]
  rw [← List.drop_drop, List.drop_left, List.drop_succ_cons, List.drop_zero]

theorem split_text (h : l.Valid) (hp : l.Plain) : SudokuServer.split l.text = l.request := by
  cases hid : l.id with
  | none =>
    have hcolon : l.puzzle.idxOf 58 = l.puzzle.length := List.idxOf_of_notMem (hp.2 hid)
    simp only [text, request, hid, SudokuServer.split, hcolon, Nat.lt_irrefl, if_false,
      Option.getD_none]
  | some id =>
    simp only [text, request, hid, Option.getD_some]
    exact split_id fun b hb => (h.id id hid b hb).1

theorem split_short (line : Bytes) : (SudokuServer.split line).puzzle.length ≤ line.length := by
  simp only [SudokuServer.split]
  split
  · rw [List.length_drop]
    omega
  · exact Nat.le_refl _

/-- What is cut out of a line that is not plain is no well-formed request. -/
theorem split_unplain (h : l.Valid) (hp : ¬l.Plain) (rest : Bytes) :
    ∃ crlf, findCRLF (l.encode ++ rest) = some crlf ∧
      (SudokuServer.split ((l.encode ++ rest).take crlf)).puzzle.length ≠ kCells := by
  have hlen := h.puzzle
  have happ : l.encode ++ rest = l.text ++ 13 :: 10 :: rest := by simp [encode]
  rw [happ]
  cases hfind : findCRLF l.puzzle with
  | some j =>
    have hle := findCRLF_le hfind
    have htext := findCRLF_line h []
    rw [List.append_nil, List.append_nil, hfind, Option.map_some] at htext
    have hj := findCRLF_le htext
    refine ⟨_, findCRLF_append htext _, ?_⟩
    rw [List.take_append_of_le_length (by omega)]
    cases hid : l.id with
    | none =>
      simp only [text, hid, Nat.sub_self, Nat.add_zero]
      have hshort := split_short (l.puzzle.take j)
      rw [List.length_take] at hshort
      omega
    | some id =>
      have htake : l.text.take (j + (l.text.length - l.puzzle.length)) =
          id ++ 58 :: l.puzzle.take j := by
        have hoff : l.text.length - l.puzzle.length = id.length + 1 := by
          simp only [text, hid, List.length_append, List.length_cons]
          omega
        rw [hoff]
        simp only [text, hid]
        rw [Nat.add_comm, Nat.add_right_comm, Nat.add_assoc, List.take_length_add_append,
          List.take_succ_cons]
      rw [htake, split_id fun b hb => (h.id id hid b hb).1, List.length_take]
      omega
  | none =>
    obtain ⟨hid, hmem⟩ : l.id = none ∧ 58 ∈ l.puzzle := by
      by_contra hno
      exact hp ⟨hfind, fun hid hmem => hno ⟨hid, hmem⟩⟩
    have htext : l.text = l.puzzle := by simp only [text, hid]
    rw [htext]
    refine ⟨_, findCRLF_text hfind rest, ?_⟩
    have hcolon := List.idxOf_lt_length_of_mem hmem
    rw [List.take_left]
    simp only [SudokuServer.split, if_pos hcolon, List.length_drop]
    omega

end SudokuLine

namespace SudokuServer

variable {ls : List SudokuLine}

/-- The lines as their own receiver collects them. -/
def lineReceiver : Receiver (List Bytes) SudokuLine UInt8 Fault where
  encode := SudokuLine.encode
  deliver raws l := raws ++ [l.text]
  run raws buff := lines.scan buff >>= fun t => .ok (raws ++ t.1, t.2)

theorem lineReceiver_exact : lineReceiver.Exact fun l => l.Valid ∧ l.Plain := by
  refine ⟨fun l _ => ?_, ?_, ?_, ?_⟩
  · simp [lineReceiver, SudokuLine.encode]
  · rintro raws l rest ⟨hv, hp⟩
    have happ : l.encode ++ rest = l.text ++ 13 :: 10 :: rest := by simp [SudokuLine.encode]
    have hi := front_some (findCRLF_text (SudokuLine.text_plain hv hp) rest)
    change lines.scan (l.encode ++ rest) >>= _ = lines.scan rest >>= _
    have hdrop : (l.text ++ 13 :: 10 :: rest).drop (l.text.length + 2) = rest := by
      rw [← List.drop_drop, List.drop_left]
      rfl
    rw [happ, Scanner.scan_item hi, List.take_left, hdrop]
    cases lines.scan rest with
    | error f => rfl
    | ok t => simp [lineReceiver]
  · rintro raws l k ⟨hv, hp⟩ hk
    have hk' : k < l.text.length + 2 := by
      simpa [lineReceiver, SudokuLine.encode] using hk
    have hpart := findCRLF_unended (SudokuLine.text_plain hv hp)
      (List.take_prefix k (l.text ++ [13, 10])) (by rw [List.length_take]; omega)
    change lines.scan ((l.text ++ [13, 10]).take k) >>= _ = _
    rw [Scanner.scan_wait (front_none hpart), ok_bind, List.append_nil]
    rfl
  · intro raws
    change lines.scan [] >>= _ = _
    rw [Scanner.scan_wait (front_none rfl), ok_bind, List.append_nil]

/-- What a server finds in the buffer once a chunk has come. -/
theorem scan_arrived (hl : ∀ l ∈ ls, l.Valid ∧ l.Plain) {k : Nat} {chunk : Bytes}
    (hk : k ≤ (ls.flatMap SudokuLine.encode).length)
    (hc : (ls.flatMap SudokuLine.encode).take k ++ chunk <+: ls.flatMap SudokuLine.encode) :
    ∃ done, lineReceiver.completed ls (k + chunk.length) = lineReceiver.completed ls k ++ done ∧
      lines.scan (lineReceiver.remainder ls k ++ chunk) =
        .ok (done.map SudokuLine.text, lineReceiver.remainder ls (k + chunk.length)) := by
  have hfeed := lineReceiver_exact.feed_from hl [] [chunk] hk
    (by rw [List.flatten_singleton]; exact hc)
  refine ⟨_, Receiver.completed_add ls k chunk.length, ?_⟩
  have hcollect : ∀ (ls : List SudokuLine) raws,
      ls.foldl lineReceiver.deliver raws = raws ++ ls.map SudokuLine.text := by
    intro ls
    induction ls with
    | nil => simp
    | cons l ls ih =>
      intro raws
      rw [List.foldl_cons, ih]
      simp [lineReceiver]
  rw [hcollect, List.nil_append, List.flatten_singleton] at hfeed
  change ((lines.scan (lineReceiver.remainder ls k ++ chunk) >>= fun t => .ok ([] ++ t.1, t.2)) >>=
    fun t => .ok t) = _ at hfeed
  cases hs : lines.scan (lineReceiver.remainder ls k ++ chunk) with
  | error f => simp [hs] at hfeed
  | ok t =>
    simp only [hs, ok_bind, List.nil_append] at hfeed
    exact hfeed

end SudokuServer

end Muduo.Examples
