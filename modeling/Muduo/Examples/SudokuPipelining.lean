import Muduo.Examples.SudokuLines

namespace Muduo.Examples
open Muduo.Lib Muduo.Net
open Http (findCRLF findCRLF_text findCRLF_split)

namespace SudokuServer

variable {ls : List SudokuLine}

/-- The solver returns on every 81 bytes. -/
theorem solution_returns {puzzle : Bytes} (h : puzzle.length = kCells) :
    ∃ result, solution puzzle = .ok result := by
  by_cases hvalid : ((List.range kCells).all fun i =>
      0 ≤ boardOf puzzle i ∧ boardOf puzzle i ≤ 9) = true
  · obtain ⟨s, hs, r, hr, _⟩ := solve_decides (boardOf puzzle) (show 324 < solveDepth by decide)
    refine ⟨if r.1 then resultOf r.2.inout else kNoSolution, ?_⟩
    rw [solution, solveSudoku, check_pos h, ok_bind, if_pos hvalid, hs, ok_bind, hr]
    rfl
  · refine ⟨kNoSolution, ?_⟩
    rw [solution, solveSudoku, check_pos h, ok_bind, if_neg hvalid]
    rfl

def solutionOf (puzzle : Bytes) : Bytes :=
  match solution puzzle with
  | .ok result => result
  | .error _ => []

theorem solution_eq {puzzle : Bytes} (h : puzzle.length = kCells) :
    solution puzzle = .ok (solutionOf puzzle) := by
  obtain ⟨result, hresult⟩ := solution_returns h
  rw [solutionOf, hresult]

/-- The line a request is answered with. -/
def answer (r : SudokuRequest) : Bytes :=
  if r.id = [] then solutionOf r.puzzle ++ ascii "\r\n"
  else r.id ++ ascii ":" ++ solutionOf r.puzzle ++ ascii "\r\n"

theorem sendResult_answer {c : SudokuClient} (h : c.connected = true) (r : SudokuRequest) :
    c.sendResult r.id (solutionOf r.puzzle) = { c with sent := c.sent ++ [answer r] } := by
  unfold SudokuClient.sendResult SudokuClient.send answer
  simp only [if_pos h]
  split <;> rfl

theorem sendResult_record (c : SudokuClient) (id result : Bytes) :
    (c.sendResult id result).bad = c.bad ∧ (c.sendResult id result).big = c.big := by
  unfold SudokuClient.sendResult SudokuClient.send
  split <;> split <;> exact ⟨rfl, rfl⟩

/-- What a server keeps true of a connection whose requests so far were `rs`. -/
structure Books (v : SudokuServer) (Kept : SudokuClient → List SudokuRequest → Prop) : Prop where
  clean : ∀ {c rs}, Kept c rs → c.bad = 0 ∧ c.big = 0
  accept : ∀ {c rs r}, Kept c rs → r.puzzle.length = kCells →
    ∃ c', v.accept c r = .ok c' ∧ Kept c' (rs ++ [r])
  resolve : ∀ {c rs k}, Kept c rs → k < c.tasks.length → ∃ c', c.resolve k = .ok c' ∧ Kept c' rs
  quiet : ∀ {c r c'}, v.accept c r = .ok c' → c'.bad = c.bad ∧ c'.big = c.big

variable {v : SudokuServer} {Kept : SudokuClient → List SudokuRequest → Prop} {c c' : SudokuClient}

theorem Books.foldl_accept (hb : v.Books Kept) {rs : List SudokuRequest} (h : Kept c rs)
    (hl : ∀ l ∈ ls, l.Valid ∧ l.Plain) :
    ∃ c', (ls.map SudokuLine.text).foldlM v.onRequest c = .ok c' ∧
      Kept c' (rs ++ ls.map SudokuLine.request) := by
  induction ls generalizing c rs with
  | nil => exact ⟨c, rfl, by simpa using h⟩
  | cons l ls ih =>
    obtain ⟨hv, hp⟩ := hl l List.mem_cons_self
    obtain ⟨c₁, hc₁, h₁⟩ := hb.accept (r := l.request) h hv.puzzle
    have hrequest : v.onRequest c l.text = .ok c₁ := by
      have hlen : l.request.puzzle.length = kCells := hv.puzzle
      simp only [onRequest, SudokuLine.split_text hv hp, if_pos hlen, hc₁]
    obtain ⟨c₂, hc₂, h₂⟩ := ih h₁ fun m hm => hl m (List.mem_cons_of_mem l hm)
    refine ⟨c₂, ?_, by simpa using h₂⟩
    rw [List.map_cons, List.foldlM_cons, hrequest, ok_bind, hc₂]

/-- A bad request stays on record. -/
theorem Books.foldl_record (hb : v.Books Kept) {raws : List Bytes}
    (h : raws.foldlM v.onRequest c = .ok c') :
    c.bad ≤ c'.bad ∧ c.big = c'.big ∧
      (c.bad = c'.bad → ∀ raw ∈ raws, (split raw).puzzle.length = kCells) := by
  induction raws generalizing c with
  | nil =>
    cases h
    exact ⟨Nat.le_refl _, rfl, fun _ => List.forall_mem_nil _⟩
  | cons raw raws ih =>
    rw [List.foldlM_cons] at h
    obtain ⟨c₁, hc₁, h⟩ := bind_ok h
    obtain ⟨hbad, hbig, hraws⟩ := ih h
    by_cases hlen : (split raw).puzzle.length = kCells
    · simp only [onRequest, if_pos hlen] at hc₁
      obtain ⟨hbad₁, hbig₁⟩ := hb.quiet hc₁
      refine ⟨by omega, by omega, fun heq => ?_⟩
      rw [List.forall_mem_cons]
      exact ⟨hlen, hraws (by omega)⟩
    · simp only [onRequest, if_neg hlen, Except.ok.injEq] at hc₁
      have hrecord : c₁.bad = c.bad + 1 ∧ c₁.big = c.big := by
        rw [← hc₁, SudokuClient.reportBad, SudokuClient.shutdown, SudokuClient.send]
        split <;> exact ⟨rfl, rfl⟩
      exact ⟨by omega, by omega, fun heq => by omega⟩

theorem resolve_record {k : Nat} (h : c.resolve k = .ok c') : c'.bad = c.bad ∧ c'.big = c.big := by
  unfold SudokuClient.resolve at h
  split at h
  · cases h
    exact ⟨rfl, rfl⟩
  · obtain ⟨result, _, h⟩ := bind_ok h
    cases h
    split
    · exact sendResult_record _ _ _
    · exact ⟨rfl, rfl⟩

/-- The bytes that arrive in a run. -/
def chunksOf (es : List SudokuEvent) : List Bytes :=
  es.filterMap fun
    | .message chunk => some chunk
    | .resolve _ => none

/-- No call finds `limit` bytes or more in the buffer: what is left of the line that is not
complete, with the chunk behind it. `k` bytes of the lines have arrived before. -/
def Fits (limit : Nat) (ls : List SudokuLine) : Nat → List Bytes → Prop
  | _, [] => True
  | k, chunk :: chunks =>
    (lineReceiver.remainder ls k).length + chunk.length < limit ∧
      Fits limit ls (k + chunk.length) chunks

theorem scan_lines {buff rest : Bytes} {raws : List Bytes}
    (h : lines.scan buff = .ok (raws, rest)) :
    buff = raws.flatMap (fun raw => raw ++ [13, 10]) ++ rest ∧
      ∀ raw ∈ raws, findCRLF raw = none := by
  have hitem : ∀ b raw n, lines.front b = .item raw n →
      b.take n = raw ++ [13, 10] ∧ findCRLF raw = none := by
    intro b raw n hi
    change front b = _ at hi
    unfold front at hi
    split at hi
    · cases hi
    · rename_i crlf hcrlf
      cases hi
      obtain ⟨hnone, htake⟩ := findCRLF_split hcrlf
      exact ⟨htake, hnone⟩
  refine ⟨Scanner.scan_encoded (fun b raw n hi => (hitem b raw n hi).1) h, fun raw hraw => ?_⟩
  obtain ⟨b, n, hi⟩ := Scanner.scan_mem h raw hraw
  exact (hitem b raw n hi).2

/-- A call takes lines off the front, and keeps its reports. -/
theorem Books.message_takes (hb : v.Books Kept) {buff rest : Bytes}
    (h : v.onMessage c buff = .ok (c', rest)) :
    c.bad ≤ c'.bad ∧ c.big ≤ c'.big ∧
      ∃ raws : List Bytes, buff = raws.flatMap (fun raw => raw ++ [13, 10]) ++ rest ∧
        (∀ raw ∈ raws, findCRLF raw = none) ∧
        (c.bad = c'.bad → ∀ raw ∈ raws, (split raw).puzzle.length = kCells) := by
  rw [onMessage_eq] at h
  split at h
  · obtain ⟨⟨raws, rest'⟩, hs, h⟩ := bind_ok h
    obtain ⟨c₁, hc₁, h⟩ := bind_ok h
    obtain ⟨hbad, hbig, hwell⟩ := hb.foldl_record hc₁
    obtain ⟨hbuff, hnone⟩ := scan_lines hs
    have hcut : c'.bad = c₁.bad ∧ c₁.big ≤ c'.big ∧ rest' = rest := by
      cases h
      refine ⟨?_, ?_, rfl⟩
      · split <;> rfl
      · split
        · exact Nat.le_succ _
        · exact Nat.le_refl _
    obtain ⟨hbad', hbig', rfl⟩ := hcut
    exact ⟨by omega, by omega, raws, hbuff, hnone, fun heq => hwell (by omega)⟩
  · cases h
    exact ⟨Nat.le_refl _, Nat.le_refl _, [], by simp, List.forall_mem_nil _,
      fun _ => List.forall_mem_nil _⟩

/-- Any run takes lines off the front; with no report of a bad request, all of them were well
formed. -/
theorem Books.run_takes (hb : v.Books Kept) {es : List SudokuEvent} {s s' : SudokuClient × Bytes}
    (h : v.machine.run s es = .ok s') :
    s.1.bad ≤ s'.1.bad ∧ s.1.big ≤ s'.1.big ∧
      ∃ raws : List Bytes, s.2 ++ (chunksOf es).flatten =
          raws.flatMap (fun raw => raw ++ [13, 10]) ++ s'.2 ∧
        (∀ raw ∈ raws, findCRLF raw = none) ∧
        (s.1.bad = s'.1.bad → ∀ raw ∈ raws, (split raw).puzzle.length = kCells) := by
  induction es generalizing s with
  | nil =>
    cases h
    exact ⟨Nat.le_refl _, Nat.le_refl _, [], by simp [chunksOf], List.forall_mem_nil _,
      fun _ => List.forall_mem_nil _⟩
  | cons e es ih =>
    rw [Machine.run_cons] at h
    obtain ⟨⟨c, buff⟩, hstep, h⟩ := bind_ok h
    obtain ⟨hbad, hbig, raws, hbytes, hlines, hwell⟩ := ih h
    simp only at hbad hbig hbytes hwell
    cases e with
    | resolve k =>
      obtain ⟨c, hc, hs⟩ := bind_ok (r := s.1.resolve k) hstep
      cases hs
      obtain ⟨hb₁, hb₂⟩ := resolve_record hc
      exact ⟨by omega, by omega, raws, hbytes, hlines, fun heq => hwell (by omega)⟩
    | message chunk =>
      obtain ⟨hb₁, hb₂, more, hmore, hnone, hgood⟩ := hb.message_takes hstep
      refine ⟨by omega, by omega, more ++ raws, ?_, ?_, fun heq => ?_⟩
      · change s.2 ++ (chunk ++ (chunksOf es).flatten) = _
        rw [← List.append_assoc, hmore, List.append_assoc, hbytes, List.flatMap_append,
          List.append_assoc]
      · rw [List.forall_mem_append]
        exact ⟨hnone, hlines⟩
      · rw [List.forall_mem_append]
        exact ⟨hgood (by omega), hwell (by omega)⟩

/-- Only plain lines are taken apart without a bad request. -/
theorem plain_of_taken {raws : List Bytes} (hv : ∀ l ∈ ls, l.Valid)
    (h : ls.flatMap SudokuLine.encode = raws.flatMap (fun raw => raw ++ [13, 10]))
    (hnone : ∀ raw ∈ raws, findCRLF raw = none)
    (hwell : ∀ raw ∈ raws, (split raw).puzzle.length = kCells) : ∀ l ∈ ls, l.Plain := by
  induction ls generalizing raws with
  | nil => exact List.forall_mem_nil _
  | cons l ls ih =>
    have hl := hv l List.mem_cons_self
    cases raws with
    | nil => simp [SudokuLine.encode] at h
    | cons raw raws =>
      rw [List.flatMap_cons, List.flatMap_cons] at h
      have hraw := findCRLF_text (hnone raw List.mem_cons_self)
        (raws.flatMap fun raw => raw ++ [13, 10])
      have hfirst : raw ++ 13 :: 10 :: raws.flatMap (fun raw => raw ++ [13, 10]) =
          l.encode ++ ls.flatMap SudokuLine.encode := by
        rw [h]
        simp
      rw [hfirst] at hraw
      have hplain : l.Plain := by
        by_contra hp
        obtain ⟨crlf, hcrlf, hne⟩ := SudokuLine.split_unplain hl hp (ls.flatMap SudokuLine.encode)
        cases hraw.symm.trans hcrlf
        rw [← hfirst, List.take_left] at hne
        exact hne (hwell raw List.mem_cons_self)
      have hsame : raw = l.text := by
        have htext := findCRLF_text (SudokuLine.text_plain hl hplain) (ls.flatMap SudokuLine.encode)
        have henc : l.text ++ 13 :: 10 :: ls.flatMap SudokuLine.encode =
            l.encode ++ ls.flatMap SudokuLine.encode := by simp [SudokuLine.encode]
        have hlen := Option.some.inj (hraw.symm.trans (henc ▸ htext))
        have htake := congrArg (List.take raw.length) (hfirst.trans henc.symm)
        rwa [List.take_left, hlen, List.take_left] at htake
      subst hsame
      have hrest := List.append_cancel_left (show l.text ++ ([13, 10] ++ _) = l.text ++ ([13, 10] ++ _)
        by simpa [SudokuLine.encode] using h)
      rw [List.forall_mem_cons]
      exact ⟨hplain, ih (fun m hm => hv m (List.mem_cons_of_mem l hm))
        (List.append_cancel_left hrest) (fun r hr => hnone r (List.mem_cons_of_mem _ hr))
        fun r hr => hwell r (List.mem_cons_of_mem _ hr)⟩

theorem text_length {l : SudokuLine} (h : l.Valid) : kCells ≤ l.text.length := by
  have hlen := h.puzzle
  cases hid : l.id with
  | none =>
    simp only [SudokuLine.text, hid]
    omega
  | some id =>
    simp only [SudokuLine.text, hid, List.length_append, List.length_cons]
    omega

/-- A call that finds fewer bytes than the limit answers the lines it completes. -/
theorem Books.message_fits (hb : v.Books Kept) (hl : ∀ l ∈ ls, l.Valid ∧ l.Plain) {k : Nat}
    {chunk : Bytes} (hk : k ≤ (ls.flatMap SudokuLine.encode).length)
    (hc : (ls.flatMap SudokuLine.encode).take k ++ chunk <+: ls.flatMap SudokuLine.encode)
    (h : Kept c ((lineReceiver.completed ls k).map SudokuLine.request))
    (hfit : (lineReceiver.remainder ls k).length + chunk.length < v.maxDataLen) :
    ∃ c', v.onMessage c (lineReceiver.remainder ls k ++ chunk) =
        .ok (c', lineReceiver.remainder ls (k + chunk.length)) ∧
      Kept c' ((lineReceiver.completed ls (k + chunk.length)).map SudokuLine.request) := by
  obtain ⟨done, hdone, hscan⟩ := scan_arrived hl hk hc
  have hsub : ∀ l ∈ done, l.Valid ∧ l.Plain := fun l hmem =>
    hl l (Receiver.completed_sub ls _ (hdone ▸ List.mem_append_right _ hmem))
  rw [onMessage_eq, hdone, List.map_append]
  by_cases hlen : kCells + 2 ≤ (lineReceiver.remainder ls k ++ chunk).length
  · obtain ⟨c', hc', hkept⟩ := hb.foldl_accept h hsub
    refine ⟨c', ?_, hkept⟩
    rw [if_pos hlen, hscan, ok_bind, hc', ok_bind,
      if_neg (by rw [List.length_append]; omega)]
  · -- fewer bytes than the shortest line
    obtain ⟨hbytes, _⟩ := scan_lines hscan
    cases done with
    | nil =>
      refine ⟨c, ?_, by simpa using h⟩
      rw [if_neg hlen, hbytes, List.map_nil, List.flatMap_nil, List.nil_append]
    | cons l done =>
      have htext := text_length (hsub l List.mem_cons_self).1
      have hlength := congrArg List.length hbytes
      simp only [List.map_cons, List.flatMap_cons, List.length_append, List.length_cons,
        List.length_nil] at hlength hlen
      omega

/-- A call that finds as many bytes as the limit ends with a report of a too big request. -/
theorem message_overflows (hmax : kCells + 2 ≤ v.maxDataLen)
    {buff rest : Bytes} (hlen : v.maxDataLen ≤ buff.length)
    (h : v.onMessage c buff = .ok (c', rest)) : 0 < c'.big := by
  rw [onMessage_eq, if_pos (by omega)] at h
  obtain ⟨t, _, h⟩ := bind_ok h
  obtain ⟨c₁, _, h⟩ := bind_ok h
  rw [if_pos hlen] at h
  cases h
  exact Nat.succ_pos _

theorem prefix_later {stream x : Bytes} {k : Nat} (hk : k ≤ stream.length) {y : Bytes}
    (h : stream.take k ++ (x ++ y) <+: stream) :
    stream.take k ++ x <+: stream ∧ k + x.length ≤ stream.length ∧
      stream.take (k + x.length) ++ y <+: stream := by
  have hx : stream.take k ++ x <+: stream := by
    rw [← List.append_assoc] at h
    exact (List.prefix_append _ _).trans h
  have hlen : (stream.take k ++ x).length = k + x.length := by
    rw [List.length_append, List.length_take, Nat.min_eq_left hk]
  have htake := List.prefix_iff_eq_take.mp hx
  rw [hlen] at htake
  refine ⟨hx, hlen ▸ hx.length_le, ?_⟩
  rw [← htake, List.append_assoc]
  exact h

/-- As long as what is in the buffer stays below the limit, the lines are answered. -/
theorem Books.run_fits (hb : v.Books Kept) (hl : ∀ l ∈ ls, l.Valid ∧ l.Plain)
    {es : List SudokuEvent} {k : Nat} (hk : k ≤ (ls.flatMap SudokuLine.encode).length)
    (hc : (ls.flatMap SudokuLine.encode).take k ++ (chunksOf es).flatten <+:
      ls.flatMap SudokuLine.encode)
    (h : Kept c ((lineReceiver.completed ls k).map SudokuLine.request))
    (hlegal : v.machine.Legal (fun _ _ => True) (c, lineReceiver.remainder ls k) es)
    (hfits : Fits v.maxDataLen ls k (chunksOf es)) :
    ∃ c', v.machine.run (c, lineReceiver.remainder ls k) es =
        .ok (c', lineReceiver.remainder ls (k + (chunksOf es).flatten.length)) ∧
      Kept c' ((lineReceiver.completed ls (k + (chunksOf es).flatten.length)).map
        SudokuLine.request) := by
  induction es generalizing c k with
  | nil => exact ⟨c, rfl, h⟩
  | cons e es ih =>
    cases e with
    | resolve i =>
      obtain ⟨c₁, hc₁, h₁⟩ := hb.resolve h hlegal.1
      have hstep : v.machine.step (c, lineReceiver.remainder ls k) (.resolve i) =
          .ok (c₁, lineReceiver.remainder ls k) := by
        change (c.resolve i >>= fun c => .ok (c, _)) = _
        rw [hc₁, ok_bind]
      obtain ⟨c', hrun, hkept⟩ := ih hk hc h₁ (hlegal.2.2 _ hstep) hfits
      refine ⟨c', ?_, hkept⟩
      rw [Machine.run_cons, hstep, ok_bind, hrun]
      rfl
    | message chunk =>
      change (ls.flatMap SudokuLine.encode).take k ++ (chunk ++ (chunksOf es).flatten) <+: _ at hc
      obtain ⟨hnow, hle, hlater⟩ := prefix_later hk hc
      obtain ⟨hfit, hmore⟩ := hfits
      obtain ⟨c₁, hc₁, h₁⟩ := hb.message_fits hl hk hnow h hfit
      have hstep : v.machine.step (c, lineReceiver.remainder ls k) (.message chunk) =
          .ok (c₁, lineReceiver.remainder ls (k + chunk.length)) := hc₁
      obtain ⟨c', hrun, hkept⟩ := ih hle hlater h₁ (hlegal.2.2 _ hstep) hmore
      have hlen : k + (chunksOf (.message chunk :: es)).flatten.length =
          k + chunk.length + (chunksOf es).flatten.length := by
        change k + (chunk ++ (chunksOf es).flatten).length = _
        rw [List.length_append]
        omega
      refine ⟨c', ?_, by rw [hlen]; exact hkept⟩
      rw [Machine.run_cons, hstep, ok_bind, hrun, hlen]

/-- Once a call finds the limit reached, the report stays on record. -/
theorem Books.run_overflows (hb : v.Books Kept) (hmax : kCells + 2 ≤ v.maxDataLen)
    (hl : ∀ l ∈ ls, l.Valid ∧ l.Plain) {es : List SudokuEvent} {k : Nat}
    (hk : k ≤ (ls.flatMap SudokuLine.encode).length)
    (hc : (ls.flatMap SudokuLine.encode).take k ++ (chunksOf es).flatten <+:
      ls.flatMap SudokuLine.encode)
    (h : Kept c ((lineReceiver.completed ls k).map SudokuLine.request))
    (hlegal : v.machine.Legal (fun _ _ => True) (c, lineReceiver.remainder ls k) es)
    (hfits : ¬Fits v.maxDataLen ls k (chunksOf es)) {s : SudokuClient × Bytes}
    (hrun : v.machine.run (c, lineReceiver.remainder ls k) es = .ok s) : 0 < s.1.big := by
  induction es generalizing c k with
  | nil => exact absurd trivial hfits
  | cons e es ih =>
    rw [Machine.run_cons] at hrun
    obtain ⟨t, hstep, hnext⟩ := bind_ok hrun
    have hlater := hlegal.2.2 t hstep
    cases e with
    | resolve i =>
      obtain ⟨c₁, hc₁, h₁⟩ := hb.resolve h hlegal.1
      have ht : (c.resolve i >>= fun c => .ok (c, lineReceiver.remainder ls k)) = .ok t := hstep
      rw [hc₁, ok_bind] at ht
      cases ht
      exact ih hk hc h₁ hlater hfits hnext
    | message chunk =>
      change (ls.flatMap SudokuLine.encode).take k ++ (chunk ++ (chunksOf es).flatten) <+: _ at hc
      obtain ⟨hnow, hle, hrest⟩ := prefix_later hk hc
      by_cases hfit : (lineReceiver.remainder ls k).length + chunk.length < v.maxDataLen
      · obtain ⟨c₁, hc₁, h₁⟩ := hb.message_fits hl hk hnow h hfit
        cases hc₁.symm.trans hstep
        exact ih hle hrest h₁ hlater (fun hmore => hfits ⟨hfit, hmore⟩) hnext
      · have hlen : v.maxDataLen ≤ (lineReceiver.remainder ls k ++ chunk).length := by
          rw [List.length_append]
          omega
        exact (message_overflows hmax hlen hstep).trans_le (hb.run_takes hnext).2.1

theorem lines_start (ls : List SudokuLine) :
    lineReceiver.completed ls 0 = [] ∧ lineReceiver.remainder ls 0 = [] := by
  cases ls with
  | nil => exact ⟨rfl, rfl⟩
  | cons l ls =>
    have hpos : ¬(lineReceiver.encode l).length ≤ 0 := by
      simp [lineReceiver, SudokuLine.encode]
    rw [Receiver.completed, Receiver.remainder, if_neg hpos, if_neg hpos, List.take_zero]
    exact ⟨rfl, rfl⟩

/-- With no report at the end and nothing in the buffer, the lines were plain and no call had
found the limit reached. -/
theorem Books.fits_of_clean (hb : v.Books Kept) (hmax : kCells + 2 ≤ v.maxDataLen)
    (hv : ∀ l ∈ ls, l.Valid) (hnew : Kept .new []) {es : List SudokuEvent}
    (hlegal : v.machine.Legal (fun _ _ => True) (.new, []) es)
    (hbytes : (chunksOf es).flatten = ls.flatMap SudokuLine.encode)
    (hrun : v.machine.run (.new, []) es = .ok (c, [])) (hbad : c.bad = 0) (hbig : c.big = 0) :
    (∀ l ∈ ls, l.Plain) ∧ Fits v.maxDataLen ls 0 (chunksOf es) := by
  have hplain : ∀ l ∈ ls, l.Plain := by
    obtain ⟨_, _, raws, htaken, hnone, hwell⟩ := hb.run_takes hrun
    rw [List.nil_append, List.append_nil, hbytes] at htaken
    exact plain_of_taken hv htaken hnone (hwell hbad.symm)
  refine ⟨hplain, ?_⟩
  by_contra hfits
  have hstart := lines_start ls
  have hover := hb.run_overflows (c := .new) (k := 0) hmax (fun l hl => ⟨hv l hl, hplain l hl⟩)
    (Nat.zero_le _) (by simp [hbytes])
    (by rw [hstart.1]; exact hnew) (by rw [hstart.2]; exact hlegal) hfits
    (by rw [hstart.2]; exact hrun)
  exact absurd hbig (Nat.ne_of_gt hover)

theorem Books.answers (hb : v.Books Kept) (hv : ∀ l ∈ ls, l.Valid) (hp : ∀ l ∈ ls, l.Plain)
    (hnew : Kept .new []) {es : List SudokuEvent}
    (hlegal : v.machine.Legal (fun _ _ => True) (.new, []) es)
    (hbytes : (chunksOf es).flatten = ls.flatMap SudokuLine.encode)
    (hfits : Fits v.maxDataLen ls 0 (chunksOf es)) :
    ∃ c, v.machine.run (.new, []) es = .ok (c, []) ∧ Kept c (ls.map SudokuLine.request) := by
  have hstart := lines_start ls
  have hrun := hb.run_fits (c := .new) (k := 0) (fun l hl => ⟨hv l hl, hp l hl⟩)
    (Nat.zero_le _) (by simp [hbytes])
    (by rw [hstart.1]; exact hnew) (by rw [hstart.2]; exact hlegal) hfits
  rw [hstart.2, Nat.zero_add, hbytes] at hrun
  have hall := lineReceiver.completed_all ls
  have hrest := lineReceiver.remainder_all ls
  change lineReceiver.completed ls (ls.flatMap SudokuLine.encode).length = ls at hall
  change lineReceiver.remainder ls (ls.flatMap SudokuLine.encode).length = [] at hrest
  rw [hall, hrest] at hrun
  exact hrun

/-- Every request so far has been answered, in order. -/
def Replied (c : SudokuClient) (rs : List SudokuRequest) : Prop :=
  c = ⟨true, rs.map answer, [], 0, 0⟩

theorem basic_books : basic.Books fun c rs =>
    Replied c rs ∧ ∀ r ∈ rs, r.puzzle.length = kCells := by
  refine ⟨?_, ?_, ?_, ?_⟩
  · rintro c rs ⟨rfl, _⟩
    exact ⟨rfl, rfl⟩
  · rintro c rs r ⟨rfl, hrs⟩ hr
    refine ⟨_, by simp only [basic, solution_eq hr, ok_bind]; rfl, ?_, ?_⟩
    · rw [sendResult_answer rfl, Replied, List.map_append]
      rfl
    · rw [List.forall_mem_append]
      exact ⟨hrs, by simpa using hr⟩
  · rintro c rs k ⟨rfl, _⟩ hk
    exact absurd hk (Nat.not_lt_zero k)
  · intro c r c' h
    obtain ⟨result, _, h⟩ := bind_ok h
    cases h
    exact sendResult_record _ _ _

/-- Every request so far has been answered or waits for the pool, one of both and once. -/
structure Resolved (c : SudokuClient) (rs : List SudokuRequest) : Prop where
  connected : c.connected = true
  unreported : c.bad = 0 ∧ c.big = 0
  once : (c.sent ++ c.tasks.map answer).Perm (rs.map answer)

theorem threadpool_books : threadpool.Books fun c rs =>
    Resolved c rs ∧ ∀ r ∈ c.tasks, r.puzzle.length = kCells := by
  refine ⟨fun h => h.1.unreported, ?_, ?_, ?_⟩
  · rintro c rs r ⟨h, htasks⟩ hr
    refine ⟨_, rfl, ⟨h.connected, h.unreported, ?_⟩, ?_⟩
    · simp only [List.map_append, ← List.append_assoc]
      exact h.once.append_right _
    · rw [List.forall_mem_append]
      exact ⟨htasks, by simpa using hr⟩
  · rintro c rs k ⟨h, htasks⟩ hk
    have hget : c.tasks[k]? = some c.tasks[k] := List.getElem?_eq_getElem hk
    have hr := htasks _ (List.getElem_mem hk)
    refine ⟨{ c with sent := c.sent ++ [answer c.tasks[k]], tasks := c.tasks.eraseIdx k }, ?_,
      ⟨h.connected, h.unreported, ?_⟩, fun r hmem => htasks r (List.mem_of_mem_eraseIdx hmem)⟩
    · simp only [SudokuClient.resolve, hget, solution_eq hr, ok_bind, if_pos h.connected]
      exact congrArg Except.ok
        (sendResult_answer (c := { c with tasks := c.tasks.eraseIdx k }) h.connected _)
    · have hperm := (List.getElem_cons_eraseIdx_perm hk).map answer
      rw [List.append_assoc]
      exact (hperm.append_left c.sent).trans h.once
  · intro c r c' h
    cases h
    exact ⟨rfl, rfl⟩

theorem chunksOf_messages (chunks : List Bytes) : chunksOf (chunks.map .message) = chunks := by
  induction chunks with
  | nil => rfl
  | cons chunk chunks ih => exact congrArg (chunk :: ·) ih

theorem messages_legal (s : SudokuClient × Bytes) (chunks : List Bytes) :
    v.machine.Legal (fun _ _ => True) s (chunks.map .message) := by
  induction chunks generalizing s with
  | nil => trivial
  | cons chunk chunks ih => exact ⟨trivial, trivial, fun t _ => ih t⟩

/-- Both servers answer the lines, however they are cut, exactly when the lines are plain and no
call finds `MAX_DATA_LEN` bytes or more in the buffer. -/
theorem pipelined_iff (hv : ∀ l ∈ ls, l.Valid) :
    (∀ chunks : List Bytes, chunks.flatten = ls.flatMap SudokuLine.encode →
      (basic.machine.run (.new, []) (chunks.map .message) =
          .ok (⟨true, (ls.map SudokuLine.request).map answer, [], 0, 0⟩, []) ↔
        (∀ l ∈ ls, l.Plain) ∧ Fits basic.maxDataLen ls 0 chunks)) ∧
    ∀ es : List SudokuEvent, threadpool.machine.Legal (fun _ _ => True) (.new, []) es →
      (chunksOf es).flatten = ls.flatMap SudokuLine.encode →
      ((∃ c, threadpool.machine.run (.new, []) es = .ok (c, []) ∧
          Resolved c (ls.map SudokuLine.request)) ↔
        (∀ l ∈ ls, l.Plain) ∧ Fits threadpool.maxDataLen ls 0 (chunksOf es)) := by
  have hbasic : Replied .new [] ∧ ∀ r ∈ ([] : List SudokuRequest), r.puzzle.length = kCells :=
    ⟨rfl, List.forall_mem_nil _⟩
  have hpool : Resolved .new [] ∧ ∀ r ∈ SudokuClient.new.tasks, r.puzzle.length = kCells :=
    ⟨⟨rfl, ⟨rfl, rfl⟩, .refl _⟩, List.forall_mem_nil _⟩
  refine ⟨fun chunks hbytes => ?_, fun es hlegal hbytes => ?_⟩
  · have hlegal := messages_legal (v := basic) (.new, []) chunks
    rw [← chunksOf_messages chunks] at hbytes
    constructor
    · intro hrun
      have hfits := basic_books.fits_of_clean (by decide) hv hbasic hlegal hbytes hrun rfl rfl
      rwa [chunksOf_messages] at hfits
    · rintro ⟨hp, hfits⟩
      rw [← chunksOf_messages chunks] at hfits
      obtain ⟨c, hrun, hkept, _⟩ := basic_books.answers hv hp hbasic hlegal hbytes hfits
      rw [hrun, hkept]
  · constructor
    · rintro ⟨c, hrun, hres⟩
      exact threadpool_books.fits_of_clean (by decide) hv hpool hlegal hbytes hrun
        hres.unreported.1 hres.unreported.2
    · rintro ⟨hp, hfits⟩
      obtain ⟨c, hrun, hkept, _⟩ := threadpool_books.answers hv hp hpool hlegal hbytes hfits
      exact ⟨c, hrun, hkept⟩

def sampleLines : List SudokuLine :=
  [⟨some [97], List.replicate 81 48⟩, ⟨none, List.replicate 81 49⟩]

theorem sampleLines_valid : ∀ l ∈ sampleLines, l.Valid := by
  intro l hl
  simp only [sampleLines, List.mem_cons, List.not_mem_nil, or_false] at hl
  rcases hl with rfl | rfl
  · refine ⟨by decide +kernel, fun id hid => ?_⟩
    cases hid
    decide +kernel
  · exact ⟨by decide +kernel, fun id hid => by cases hid⟩

theorem pipelined_iff_sample :
    (∀ chunks : List Bytes, chunks.flatten = sampleLines.flatMap SudokuLine.encode →
      (basic.machine.run (.new, []) (chunks.map .message) =
          .ok (⟨true, (sampleLines.map SudokuLine.request).map answer, [], 0, 0⟩, []) ↔
        (∀ l ∈ sampleLines, l.Plain) ∧ Fits basic.maxDataLen sampleLines 0 chunks)) ∧
    ∀ es : List SudokuEvent, threadpool.machine.Legal (fun _ _ => True) (.new, []) es →
      (chunksOf es).flatten = sampleLines.flatMap SudokuLine.encode →
      ((∃ c, threadpool.machine.run (.new, []) es = .ok (c, []) ∧
          Resolved c (sampleLines.map SudokuLine.request)) ↔
        (∀ l ∈ sampleLines, l.Plain) ∧ Fits threadpool.maxDataLen sampleLines 0 (chunksOf es)) :=
  pipelined_iff sampleLines_valid

/-- Thirteen puzzles, 1079 bytes. -/
def batch : List SudokuLine := List.replicate 13 ⟨none, List.replicate 81 48⟩

/-- A batch that arrives at once is reported as too big a request, and the connection is shut
down, whatever has been answered before. -/
theorem batch_too_big :
    basic.machine.run (.new, []) [.message (batch.flatMap SudokuLine.encode)] ≠
      .ok (⟨true, (batch.map SudokuLine.request).map answer, [], 0, 0⟩, []) := by
  intro hrun
  have hv : ∀ l ∈ batch, l.Valid := by
    intro l hl
    rw [List.eq_of_mem_replicate hl]
    exact ⟨by decide +kernel, fun id hid => by cases hid⟩
  have hfits := (basic_books.fits_of_clean (by decide) hv ⟨rfl, List.forall_mem_nil _⟩
    (messages_legal (.new, []) [batch.flatMap SudokuLine.encode])
    (by rw [chunksOf_messages, List.flatten_singleton]) hrun rfl rfl).2
  have hlen : (batch.flatMap SudokuLine.encode).length = 1079 := by decide +kernel
  have hlimit : basic.maxDataLen = 1024 := rfl
  rw [chunksOf_messages] at hfits
  have := hfits.1
  omega

end SudokuServer

end Muduo.Examples
