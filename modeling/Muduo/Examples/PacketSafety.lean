import Muduo.Examples.PacketStream

namespace Muduo.Examples
open Muduo.Lib Muduo.Net Multiplexer BackendServer

namespace BackendServer

def reader : PacketReader BackendServer where
  inspect b len := if len < 0 ∨ len > maxPacketLen then { b with shutdowns := b.shutdowns + 1 } else b
  dispatch b p := b.onStringMessage p.id p.type p.payload

/-- No read of `onMessage` goes past the readable bytes. -/
theorem reader_read (b : BackendServer) (buff : Bytes) :
    reader.read b buff = b.onMessage buff := by
  induction hl : buff.length using Nat.strongRecOn generalizing b buff with
  | ind l ih =>
    by_cases hlong : headerLen + 1 < buff.length
    · rw [reader.read_long b hlong, onMessage, if_pos hlong]
      rcases PacketReader.need_cases buff with ⟨_, hneed⟩ | ⟨hfit, hneed⟩
      · simp only [hneed, error_bind]
      · simp only [hneed, ok_bind]
        by_cases hlack : buff.length < sizeOfInt (peekInt32 buff + 9)
        · rw [if_pos hlack, if_pos hlack]
          rfl
        by_cases hneg : peekInt32 buff < 0
        · rw [if_neg hlack, if_neg hlack, if_pos hneg, if_pos hneg]
        rcases PacketReader.front_cases hlong with ⟨hover, _⟩ | ⟨_, hlack', _⟩ | ⟨hneg', _, _⟩ |
          ⟨h0, _, hle, _⟩
        · omega
        · exact absurd hlack' hlack
        · exact absurd hneg' hneg
        · have hmsg : load buff (headerLen + 1) (peekInt32 buff).toNat =
              .ok ((buff.drop (headerLen + 1)).take (peekInt32 buff).toNat) := load_of_le hle
          rw [if_neg hlack, if_neg hlack, if_neg hneg, if_neg hneg, hmsg, ok_bind]
          exact ih _ (by rw [List.length_drop]; omega) _ _ rfl
    · rw [PacketReader.read, if_neg hlong, onMessage, if_neg hlong]

theorem reader_folds : reader.Folds received fun ps p => ps ++ [p] := by
  refine ⟨fun b len => ?_, fun b p => rfl⟩
  change (if _ then _ else b).received = b.received
  split <;> rfl

end BackendServer

namespace PacketReader

variable {σ τ : Type} {buff : Bytes}

/-- A reader run on a stream has returned, and has dispatched nothing but packets that stand
before the first with an invalid length. -/
def Safe (invalid : Int → Prop) (stream : Bytes) (result : Except Fault (List Packet × Bytes)) :
    Prop :=
  ∃ (dispatched : List Packet) (rest : Bytes), result = .ok (dispatched, rest) ∧
    ∀ (ps : List Packet) (bad : Bytes), (∀ p ∈ ps, OnWire p) →
      stream = ps.flatMap encode ++ bad → 4 ≤ bad.length →
      invalid (peekInt32 bad) → dispatched <+: ps

/-- The length at the front neither overflows the sum in the completeness test nor passes
that test as a negative number. -/
def Passable (rest : Bytes) : Prop :=
  peekInt32 rest + headerLen + 1 < 2 ^ 31 ∧
    (peekInt32 rest < 0 → rest.length < sizeOfInt (peekInt32 rest + headerLen + 1))

/-- Wherever whole packets end in the stream, with more than a bare header behind them. -/
def Everywhere (ok : Bytes → Prop) (stream : Bytes) : Prop :=
  ∀ (ps : List Packet) (rest : Bytes), (∀ p ∈ ps, OnWire p) →
    stream = ps.flatMap encode ++ rest → headerLen + 1 <
      rest.length → ok rest

theorem encode_of_item : ∀ b p n, scanner.front b = .item p n → b.take n = encode p :=
  fun _ _ _ h => (front_item h).2.2.2.1

theorem front_passable (h : Passable buff) (f : Fault) : scanner.front buff ≠ .fault f := by
  have hsum : peekInt32 buff + headerLen + 1 = peekInt32 buff + 9 := by
    unfold headerLen
    omega
  obtain ⟨hfit, hneg⟩ := h
  rw [hsum] at hfit hneg
  intro hf
  change front buff = _ at hf
  by_cases hlong : headerLen + 1 < buff.length
  · rcases front_cases hlong with ⟨hover, _⟩ | ⟨_, _, hf'⟩ | ⟨hlt, hsize, _⟩ | ⟨_, _, _, hf'⟩
    · omega
    · cases hf'.symm.trans hf
    · have := hneg hlt
      omega
    · cases hf'.symm.trans hf
  · cases (front_short _ (by omega)).symm.trans hf

theorem passable_of_front (hlong : headerLen + 1 < buff.length)
    (h : ∀ f, scanner.front buff ≠ .fault f) : Passable buff := by
  have hsum : peekInt32 buff + headerLen + 1 = peekInt32 buff + 9 := by
    unfold headerLen
    omega
  rw [Passable, hsum]
  rcases front_cases hlong with ⟨_, hf⟩ | ⟨hfit, hlack, _⟩ | ⟨_, _, hf⟩ | ⟨h0, hfit, _, _⟩
  · exact absurd hf (h _)
  · exact ⟨hfit, fun _ => hlack⟩
  · exact absurd hf (h _)
  · exact ⟨hfit, by omega⟩

/-- The whole packets in front of some bytes are dispatched, unless one of them overflows. -/
theorem scan_packets {ps : List Packet} (hw : ∀ p ∈ ps, OnWire p)
    (buff : Bytes) (hlong : headerLen + 1 < buff.length) :
    scanner.scan (ps.flatMap encode ++ buff) = .error .overflow ∨
      scanner.scan (ps.flatMap encode ++ buff) =
        scanner.scan buff >>= fun t => .ok (ps ++ t.1, t.2) := by
  induction ps with
  | nil =>
    refine .inr ?_
    rw [List.flatMap_nil, List.nil_append]
    cases scanner.scan buff <;> rfl
  | cons p ps ih =>
    have hp := hw p List.mem_cons_self
    have hfront : headerLen + 1 < (encode p ++ (ps.flatMap encode ++ buff)).length := by
      rw [List.length_append, List.length_append]
      omega
    rw [List.flatMap_cons, List.append_assoc]
    by_cases hfit : p.payload.length + 9 < 2 ^ 31
    · have hi : scanner.front _ = _ := front_encode hp hfit hfront
      rw [Scanner.scan_item hi, List.drop_left]
      rcases ih fun q hq => hw q (List.mem_cons_of_mem p hq) with hf | hok
      · exact .inl (by rw [hf, error_bind])
      · refine .inr ?_
        rw [hok]
        cases scanner.scan buff <;> rfl
    · have hpeek := peek_length hp (ps.flatMap encode ++ buff)
      have hf : scanner.front _ = _ := front_overflow _ (by rw [hpeek]; omega) hfront
      exact .inl (Scanner.scan_fault hf)

theorem scan_passable_iff (stream : Bytes) :
    Everywhere Passable stream ↔ ∃ t, scanner.scan stream = .ok t := by
  constructor
  · intro h
    cases hs : scanner.scan stream with
    | ok t => exact ⟨t, rfl⟩
    | error f =>
      obtain ⟨ps, rest, hsplit, hf, hitems⟩ := Scanner.scan_fails encode_of_item hs
      have hw : ∀ p ∈ ps, OnWire p := by
        intro p hp
        obtain ⟨b, n, hi⟩ := hitems p hp
        exact (front_item hi).1
      have hlong : headerLen + 1 < rest.length := by
        by_contra hshort
        cases (front_short rest (by omega)).symm.trans hf
      exact absurd hf (front_passable (h ps rest hw hsplit hlong) f)
  · rintro ⟨t, ht⟩ ps rest hw rfl hlong
    refine passable_of_front hlong fun f hf => ?_
    rcases scan_packets hw _ hlong with hs | hs
    · cases hs.symm.trans ht
    · rw [Scanner.scan_fault hf, error_bind] at hs
      cases hs.symm.trans ht

theorem encode_injective {p q : Packet} (hp : OnWire p) (hq : OnWire q) {x y : Bytes}
    (h : encode p ++ x = encode q ++ y) : p = q ∧ x = y := by
  have hlength := peek_length hp x
  have hid := peek_id hp x
  have htail := drop_header p x
  rw [h] at hlength hid htail
  rw [peek_length hq] at hlength
  rw [peek_id hq] at hid
  rw [drop_header] at htail
  obtain ⟨htype, hpayload⟩ := List.cons.inj htail
  obtain ⟨hpayload, hrest⟩ := List.append_inj hpayload (by omega)
  cases p
  cases q
  simp_all

/-- Dispatched packets with a valid length stand before every invalid one. -/
theorem prefix_of_invalid {P : Int → Prop} {ds ps : List Packet} {rest bad : Bytes}
    (hd : ∀ d ∈ ds, OnWire d ∧ ¬P d.payload.length) (hp : ∀ p ∈ ps, OnWire p)
    (h : ds.flatMap encode ++ rest = ps.flatMap encode ++ bad) (hbad : P (peekInt32 bad)) :
    ds <+: ps := by
  induction ds generalizing ps with
  | nil => exact List.nil_prefix
  | cons d ds ih =>
    obtain ⟨hwire, hvalid⟩ := hd d List.mem_cons_self
    rw [List.flatMap_cons, List.append_assoc] at h
    cases ps with
    | nil =>
      rw [List.flatMap_nil, List.nil_append] at h
      rw [← h, peek_length hwire] at hbad
      exact absurd hbad hvalid
    | cons p ps =>
      rw [List.flatMap_cons, List.append_assoc] at h
      obtain ⟨rfl, htail⟩ := encode_injective hwire (hp p List.mem_cons_self) h
      exact List.cons_prefix_cons.mpr ⟨rfl, ih (fun c hc => hd c (List.mem_cons_of_mem _ hc))
        (fun q hq => hp q (List.mem_cons_of_mem _ hq)) htail⟩

theorem scan_safe_iff (stream : Bytes) :
    Safe (· < 0) stream (scanner.scan stream) ↔ Everywhere Passable stream := by
  rw [scan_passable_iff]
  constructor
  · rintro ⟨ds, rest, hs, _⟩
    exact ⟨_, hs⟩
  · rintro ⟨⟨ds, rest⟩, hs⟩
    refine ⟨ds, rest, hs, fun ps bad hw hsplit _ hbad => ?_⟩
    refine prefix_of_invalid (P := (· < 0)) (fun d hd => ⟨?_, by omega⟩) hw
      ((Scanner.scan_encoded encode_of_item hs).symm.trans hsplit) hbad
    obtain ⟨b, n, hi⟩ := Scanner.scan_mem hs d hd
    exact (front_item hi).1

/-- A complete packet that is longer than the backend allows. -/
def Oversized (rest : Bytes) : Prop :=
  maxPacketLen < peekInt32 rest ∧ peekInt32 rest + headerLen + 1 ≤ rest.length

theorem scan_safe_short_iff (stream : Bytes) :
    Safe (fun len => len < 0 ∨ len > maxPacketLen) stream (scanner.scan stream) ↔
      Everywhere (fun rest => Passable rest ∧ ¬Oversized rest) stream := by
  constructor
  · rintro ⟨ds, rest, hs, hsafe⟩ ps tail hw hsplit hlong
    have hpass : Passable tail :=
      (scan_passable_iff stream).mpr ⟨_, hs⟩ ps tail hw hsplit hlong
    refine ⟨hpass, fun ⟨hbig, hall⟩ => ?_⟩
    unfold headerLen at hall hlong
    -- the packet is complete, so it has been dispatched behind `ps`
    have hpre := hsafe ps tail hw hsplit (by omega) (.inr hbig)
    rcases scan_packets hw tail hlong with hf | hok
    · rw [← hsplit, hs] at hf
      cases hf
    · rcases front_cases hlong with ⟨_, hf⟩ | ⟨_, hlack, _⟩ | ⟨hneg, _, _⟩ | ⟨_, _, _, hi⟩
      · exact front_passable hpass _ hf
      · obtain ⟨k, hk⟩ := Int.eq_ofNat_of_zero_le (a := peekInt32 tail + 9) (by omega)
        obtain ⟨_, hlt⟩ := peekInt32_range tail
        rw [hk, sizeOfInt_natCast (by omega)] at hlack
        omega
      · omega
      · rw [← hsplit, hs, Scanner.scan_item (s := scanner) hi] at hok
        obtain ⟨t, ht, hds⟩ := bind_ok hok.symm
        obtain ⟨u, _, hu⟩ := bind_ok ht
        cases hu
        cases hds
        have hle := hpre.length_le
        rw [List.length_append, List.length_cons] at hle
        omega
  · intro h
    have hpass : Everywhere Passable stream := fun ps rest hw hsplit hlong =>
      (h ps rest hw hsplit hlong).1
    obtain ⟨⟨ds, rest⟩, hs⟩ := (scan_passable_iff stream).mp hpass
    have hds : ∀ d ∈ ds, OnWire d := by
      intro d hd
      obtain ⟨b, n, hi⟩ := Scanner.scan_mem hs d hd
      exact (front_item hi).1
    have hstream := Scanner.scan_encoded encode_of_item hs
    refine ⟨ds, rest, hs, fun ps bad hw hsplit _ hbad => ?_⟩
    refine prefix_of_invalid (P := fun len => len < 0 ∨ len > maxPacketLen)
      (fun d hd => ⟨hds d hd, fun hinvalid => ?_⟩) hw
      (hstream.symm.trans hsplit) hbad
    obtain ⟨before, after, rfl⟩ := List.append_of_mem hd
    have hlen := encode_length d
    have hmax : maxPacketLen = 512 := rfl
    have hheader : headerLen = 8 := rfl
    have hbig : (maxPacketLen : Int) < d.payload.length := by omega
    rw [List.flatMap_append, List.flatMap_cons, List.append_assoc, List.append_assoc] at hstream
    have htail := h before _ (fun c hc => hds c (List.mem_append_left _ hc)) hstream
      (by rw [List.length_append]; omega)
    refine htail.2 ⟨?_, ?_⟩
    · rw [peek_length (hds d hd)]
      exact hbig
    · rw [peek_length (hds d hd), List.length_append]
      omega

end PacketReader

namespace Multiplexer

variable {κ : Type}

theorem fromBackend_calls (m : Multiplexer κ) (chunks : List Bytes) :
    (fromBackend.feed (⟨m, []⟩, []) chunks).map (fun t => (t.1.calls, t.2)) =
      PacketReader.scanner.scan chunks.flatten := by
  rw [feed_eq]
  cases PacketReader.scanner.scan chunks.flatten <;> rfl

end Multiplexer

namespace BackendServer

theorem receiver_received (shutdowns : Nat) (chunks : List Bytes) :
    (receiver.feed (⟨[], shutdowns⟩, []) chunks).map (fun t => (t.1.received, t.2)) =
      PacketReader.scanner.scan chunks.flatten := by
  have hrun : receiver.feed (⟨[], shutdowns⟩, []) chunks =
      reader.receiver.feed (⟨[], shutdowns⟩, []) chunks := by
    unfold Receiver.feed
    congr 1
    funext t chunk
    exact (reader_read t.1 (t.2 ++ chunk)).symm
  have hadd : ∀ ps qs : List Packet, ps.foldl (fun ps p => ps ++ [p]) qs = qs ++ ps := by
    intro ps
    induction ps with
    | nil => simp
    | cons p ps ih =>
      intro qs
      rw [List.foldl_cons, ih, List.append_assoc, List.singleton_append]
  rw [hrun, reader_folds.feed]
  cases PacketReader.scanner.scan chunks.flatten with
  | error f => rfl
  | ok t => simp only [Except.map, hadd, List.nil_append]

end BackendServer

/-- On any bytes, however they are cut, both decoders are safe exactly when no length they come
to overflows or is negative and passes the completeness test, and the backend comes to no
complete packet that is too long. -/
theorem decoders_safe_iff {κ : Type} (m : Multiplexer κ) (shutdowns : Nat) (chunks : List Bytes) :
    (PacketReader.Safe (· < 0) chunks.flatten
        ((fromBackend.feed (⟨m, []⟩, []) chunks).map fun t => (t.1.calls, t.2)) ↔
      PacketReader.Everywhere PacketReader.Passable chunks.flatten) ∧
    (PacketReader.Safe (fun len => len < 0 ∨ len > maxPacketLen) chunks.flatten
        ((BackendServer.receiver.feed (⟨[], shutdowns⟩, []) chunks).map fun t =>
          (t.1.received, t.2)) ↔
      PacketReader.Everywhere (fun rest => PacketReader.Passable rest ∧ ¬PacketReader.Oversized rest)
        chunks.flatten) := by
  rw [Multiplexer.fromBackend_calls, BackendServer.receiver_received]
  exact ⟨PacketReader.scan_safe_iff _, PacketReader.scan_safe_short_iff _⟩

/-- A length of -1 passes the completeness test of either decoder. -/
theorem negative_length_used :
    ¬(PacketReader.Safe (· < 0) [255, 255, 255, 255, 0, 0, 0, 0, 2, 0]
        ((fromBackend.feed (⟨(new : Multiplexer Unit), []⟩, [])
          [[255, 255, 255, 255, 0, 0, 0, 0, 2, 0]]).map fun t => (t.1.calls, t.2)) ∧
      PacketReader.Safe (fun len => len < 0 ∨ len > maxPacketLen)
        [255, 255, 255, 255, 0, 0, 0, 0, 2, 0]
        ((BackendServer.receiver.feed (⟨[], 0⟩, [])
          [[255, 255, 255, 255, 0, 0, 0, 0, 2, 0]]).map fun t => (t.1.received, t.2))) := by
  rintro ⟨⟨ds, rest, hs, _⟩, _⟩
  rw [Multiplexer.fromBackend_calls] at hs
  have hf : PacketReader.scanner.front
      [[255, 255, 255, 255, 0, 0, 0, 0, 2, 0]].flatten = .fault .lengthError := by
    decide +kernel
  rw [Scanner.scan_fault hf] at hs
  cases hs

end Muduo.Examples
