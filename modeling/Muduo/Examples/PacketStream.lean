import Muduo.Examples.PacketReader

namespace Muduo.Examples
open Muduo.Lib Muduo.Net Multiplexer BackendServer

namespace PacketReader

variable {σ τ : Type} (r : PacketReader σ)

def receiver : Receiver σ Packet UInt8 Fault := ⟨encode, r.dispatch, r.read⟩

/-- What `view` shows of the state depends on the packets alone. -/
structure Folds (view : σ → τ) (add : τ → Packet → τ) : Prop where
  inspect : ∀ s len, view (r.inspect s len) = view s
  dispatch : ∀ s p, view (r.dispatch s p) = add (view s) p

variable {r} {view : σ → τ} {add : τ → Packet → τ}

theorem Folds.foldl (h : r.Folds view add) (ps : List Packet) (s : σ) :
    view (ps.foldl r.handle s) = ps.foldl add (view s) := by
  induction ps generalizing s with
  | nil => rfl
  | cons p ps ih => rw [List.foldl_cons, List.foldl_cons, ih, handle, h.dispatch, h.inspect]

theorem Folds.settle (h : r.Folds view add) (s : σ) (rest : Bytes) :
    view (r.settle s rest) = view s := by
  unfold PacketReader.settle
  split
  · exact h.inspect s _
  · rfl

theorem Folds.feed_from (h : r.Folds view add) (t : σ × Bytes) (ht : scanner.front t.2 = .wait)
    (chunks : List Bytes) :
    (r.receiver.feed t chunks).map (fun u => (view u.1, u.2)) =
      (scanner.scan (t.2 ++ chunks.flatten)).map fun u => (u.1.foldl add (view t.1), u.2) := by
  induction chunks generalizing t with
  | nil =>
    rw [List.flatten_nil, List.append_nil, Scanner.scan_wait ht]
    rfl
  | cons chunk chunks ih =>
    rw [Receiver.feed, List.foldlM_cons, Receiver.arrive, List.flatten_cons, ← List.append_assoc,
      Scanner.scan_append]
    change Except.map _ (r.read t.1 (t.2 ++ chunk) >>= fun u => r.receiver.feed u chunks) = _
    rw [read_eq]
    cases hs : scanner.scan (t.2 ++ chunk) with
    | error f => rfl
    | ok u =>
      simp only [ok_bind]
      rw [ih _ (Scanner.scan_rest hs), h.settle, h.foldl]
      cases scanner.scan (u.2 ++ chunks.flatten) with
      | error f => rfl
      | ok v => simp only [Except.map, ok_bind, List.foldl_append]

/-- However the bytes are cut into chunks, the packets are those of all bytes at once. -/
theorem Folds.feed (h : r.Folds view add) (s : σ) (chunks : List Bytes) :
    (r.receiver.feed (s, []) chunks).map (fun u => (view u.1, u.2)) =
      (scanner.scan chunks.flatten).map fun u => (u.1.foldl add (view s), u.2) :=
  h.feed_from (s, []) (front_short [] (Nat.zero_le _)) chunks

end PacketReader

namespace Multiplexer

variable {κ : Type}

/-- The multiplexer with the calls of `sendClientString` made so far. -/
structure FromBackend (κ : Type) where
  mux : Multiplexer κ
  calls : List Packet

def clientReader : PacketReader (FromBackend κ) where
  inspect s _ := s
  dispatch s p := ⟨s.mux.sendClientString p.id p.type p.payload, s.calls ++ [p]⟩

/-- `sendClientPacket`, which `onBackendMessage` calls for what arrives. -/
def sendClientPacket (s : FromBackend κ) (buff : Bytes) : Except Fault (FromBackend κ × Bytes) :=
  clientReader.read s buff

def fromBackend : Receiver (FromBackend κ) Packet UInt8 Fault where
  encode := encode
  deliver := clientReader.dispatch
  run := sendClientPacket

theorem clientReader_folds : (clientReader (κ := κ)).Folds id clientReader.dispatch :=
  ⟨fun _ _ => rfl, fun _ _ => rfl⟩

theorem foldl_dispatch (ps : List Packet) (s : FromBackend κ) :
    ps.foldl clientReader.dispatch s =
      ⟨ps.foldl (fun m p => m.sendClientString p.id p.type p.payload) s.mux, s.calls ++ ps⟩ := by
  induction ps generalizing s with
  | nil => rw [List.foldl_nil, List.foldl_nil, List.append_nil]
  | cons p ps ih =>
    rw [List.foldl_cons, ih]
    simp [clientReader]

/-- The packets in the first `k` bytes of a stream are all recognised: the bytes do not end
right behind a packet with an empty payload, which the loop guard holds back, and of a packet
so long that `len + HEADER_LEN + 1` overflows the loop has not seen more than the header. -/
def Legible (ps : List Packet) (k : Nat) : Prop :=
  ∀ before p after, ps = before ++ p :: after →
    ¬(p.payload = [] ∧ k = (before.flatMap encode).length + headerLen + 1) ∧
      ((before.flatMap encode).length + headerLen + 1 < k →
        p.payload.length + headerLen + 1 < 2 ^ 31)

theorem legible_cons {p : Packet} {ps : List Packet} {k : Nat} :
    Legible (p :: ps) k ↔
      (¬(p.payload = [] ∧ k = headerLen + 1) ∧
        (headerLen + 1 < k → p.payload.length + headerLen + 1 < 2 ^ 31)) ∧
      ((encode p).length ≤ k → Legible ps (k - (encode p).length)) := by
  constructor
  · intro h
    refine ⟨by simpa using h [] p ps rfl, fun hle before q after hps => ?_⟩
    have hq := h (p :: before) q after (by rw [hps, List.cons_append])
    rw [List.flatMap_cons, List.length_append] at hq
    refine ⟨fun ⟨hnil, hk⟩ => hq.1 ⟨hnil, by omega⟩, fun hlt => hq.2 (by omega)⟩
  · rintro ⟨hhead, htail⟩ before q after hps
    cases before with
    | nil =>
      cases hps
      simpa using hhead
    | cons p' before =>
      obtain ⟨rfl, rfl⟩ := List.cons.inj hps
      rw [List.flatMap_cons, List.length_append]
      by_cases hle : (encode p).length ≤ k
      · have hq := htail hle before q after rfl
        refine ⟨fun ⟨hnil, hk⟩ => hq.1 ⟨hnil, by omega⟩, fun hlt => hq.2 (by omega)⟩
      · exact ⟨fun ⟨_, hk⟩ => by omega, fun hlt => by omega⟩

theorem scan_cons_iff {r : Except Fault (List Packet × Bytes)} {p : Packet} {ps : List Packet}
    {rest : Bytes} :
    (r >>= fun t => .ok (p :: t.1, t.2)) = .ok (p :: ps, rest) ↔ r = .ok (ps, rest) := by
  cases r with
  | error f => simp
  | ok t =>
    obtain ⟨qs, rest'⟩ := t
    simp

/-- The first `k` bytes of a stream are taken apart exactly when they are legible. -/
theorem scan_take_iff {ps : List Packet} (hw : ∀ p ∈ ps, OnWire p) {k : Nat}
    (hk : k ≤ (ps.flatMap encode).length) :
    PacketReader.scanner.scan ((ps.flatMap encode).take k) =
        .ok ((fromBackend (κ := κ)).completed ps k, (fromBackend (κ := κ)).remainder ps k) ↔
      Legible ps k := by
  induction ps generalizing k with
  | nil =>
    refine ⟨fun _ before p after hps => by simp at hps, fun _ => ?_⟩
    rw [List.flatMap_nil, List.take_nil]
    exact Scanner.scan_wait (s := PacketReader.scanner)
      (PacketReader.front_short [] (Nat.zero_le _))
  | cons p ps ih =>
    have hp := hw p List.mem_cons_self
    have hlen := encode_length p
    have hheader : headerLen = 8 := rfl
    have hshort := hp.short
    rw [List.flatMap_cons, List.length_append] at hk
    rw [legible_cons, List.flatMap_cons, List.take_append]
    by_cases hle : (encode p).length ≤ k
    · have hrest := ih (fun q hq => hw q (List.mem_cons_of_mem p hq))
        (k := k - (encode p).length) (by omega)
      have htotal : (encode p ++ (ps.flatMap encode).take (k - (encode p).length)).length = k := by
        rw [List.length_append, List.length_take, Nat.min_eq_left (by omega)]
        omega
      rw [List.take_of_length_le hle, Receiver.completed, Receiver.remainder,
        if_pos (show ((fromBackend (κ := κ)).encode p).length ≤ k from hle),
        if_pos (show ((fromBackend (κ := κ)).encode p).length ≤ k from hle)]
      by_cases hlong : headerLen + 1 < k
      · by_cases hfit : p.payload.length + 9 < 2 ^ 31
        · have hi := PacketReader.front_encode hp hfit (by rw [htotal]; exact hlong)
          rw [Scanner.scan_item (s := PacketReader.scanner) hi, List.drop_left, scan_cons_iff]
          refine hrest.trans ⟨fun h => ⟨⟨by omega, by omega⟩, fun _ => h⟩, fun h => h.2 hle⟩
        · have hpeek := peek_length hp ((ps.flatMap encode).take (k - (encode p).length))
          have hf := PacketReader.front_overflow _ (by rw [hpeek]; omega)
            (by rw [htotal]; exact hlong)
          rw [Scanner.scan_fault (s := PacketReader.scanner) hf]
          refine ⟨fun h => absurd h (by simp), fun h => absurd (h.1.2 hlong) (by omega)⟩
      · have hf := PacketReader.front_short
          (encode p ++ (ps.flatMap encode).take (k - (encode p).length)) (by omega)
        rw [Scanner.scan_wait (s := PacketReader.scanner) hf]
        refine ⟨fun h => by simp at h, fun h => absurd ⟨?_, by omega⟩ h.1.1⟩
        exact List.eq_nil_of_length_eq_zero (by omega)
    · have hzero : k - (encode p).length = 0 := by omega
      have htake : ((encode p).take k).length = k := by
        rw [List.length_take, Nat.min_eq_left (by omega)]
      rw [hzero, List.take_zero, List.append_nil, Receiver.completed, Receiver.remainder,
        if_neg (show ¬((fromBackend (κ := κ)).encode p).length ≤ k from hle),
        if_neg (show ¬((fromBackend (κ := κ)).encode p).length ≤ k from hle)]
      by_cases hlong : headerLen + 1 < k
      · have hpeek : peekInt32 ((encode p).take k) = p.payload.length := by
          rw [peekInt32_take _ (by omega), ← peek_length hp [], List.append_nil]
        by_cases hfit : p.payload.length + 9 < 2 ^ 31
        · have hf := PacketReader.front_lacks ((encode p).take k) (by omega) (by omega)
            (by omega)
          rw [Scanner.scan_wait (s := PacketReader.scanner) hf]
          refine ⟨fun _ => ⟨⟨by omega, by omega⟩, fun h => absurd h hle⟩, fun _ => rfl⟩
        · have hf := PacketReader.front_overflow ((encode p).take k) (by omega) (by omega)
          rw [Scanner.scan_fault (s := PacketReader.scanner) hf]
          refine ⟨fun h => absurd h (by simp), fun h => absurd (h.1.2 hlong) (by omega)⟩
      · have hf := PacketReader.front_short ((encode p).take k) (by omega)
        rw [Scanner.scan_wait (s := PacketReader.scanner) hf]
        refine ⟨fun _ => ⟨⟨?_, by omega⟩, fun h => absurd h hle⟩, fun _ => rfl⟩
        rintro ⟨hnil, hk9⟩
        rw [hnil, List.length_nil] at hlen
        omega

/-- After every chunk, the packets all of whose bytes have arrived have been handed to
`sendClientString`, once and in order, and the bytes of the next one wait. -/
def FramedExactly (m : Multiplexer κ) (ps : List Packet) (chunks : List Bytes) : Prop :=
  ∀ cs, cs <+: chunks → ∃ m', fromBackend.feed (⟨m, []⟩, []) cs =
    .ok (⟨m', (fromBackend (κ := κ)).completed ps cs.flatten.length⟩,
      (fromBackend (κ := κ)).remainder ps cs.flatten.length)

theorem feed_eq (m : Multiplexer κ) (cs : List Bytes) :
    fromBackend.feed (⟨m, []⟩, []) cs =
      (PacketReader.scanner.scan cs.flatten).map fun t =>
        (⟨t.1.foldl (fun m p => m.sendClientString p.id p.type p.payload) m, t.1⟩, t.2) := by
  have h := clientReader_folds.feed ⟨m, []⟩ cs
  have hid : (fromBackend.feed (⟨m, []⟩, []) cs).map (fun u => (id u.1, u.2)) =
      fromBackend.feed (⟨m, []⟩, []) cs := by
    cases fromBackend.feed (⟨m, []⟩, []) cs <;> rfl
  rw [← hid]
  refine h.trans ?_
  cases PacketReader.scanner.scan cs.flatten with
  | error f => rfl
  | ok t => simp only [Except.map, foldl_dispatch, List.nil_append, id]

/-- The framing of the backend's packets is exact if and only if no chunk ends where the
loop guard or the sum in the completeness test goes wrong. -/
theorem packets_framed_iff (m : Multiplexer κ) {ps : List Packet} (hw : ∀ p ∈ ps, OnWire p)
    {chunks : List Bytes} (hc : chunks.flatten <+: ps.flatMap encode) :
    FramedExactly m ps chunks ↔ ∀ cs, cs <+: chunks → Legible ps cs.flatten.length := by
  refine forall_congr' fun cs => forall_congr' fun hcs => ?_
  have hpre : cs.flatten <+: ps.flatMap encode := by
    obtain ⟨more, rfl⟩ := hcs
    rw [List.flatten_append] at hc
    exact (List.prefix_append _ _).trans hc
  have hcut := scan_take_iff (κ := κ) hw hpre.length_le
  rw [← List.prefix_iff_eq_take.mp hpre] at hcut
  rw [feed_eq, ← hcut]
  cases PacketReader.scanner.scan cs.flatten with
  | error f => simp [Except.map]
  | ok t =>
    obtain ⟨qs, rest⟩ := t
    simp [Except.map]

def samplePackets : List Packet :=
  [⟨0, ClientType.msg, [104, 105]⟩, ⟨7, ClientType.disconn, []⟩, ⟨1, ClientType.msg, [10]⟩]

theorem packets_framed_iff_sample :
    FramedExactly (new : Multiplexer Unit) samplePackets
        [(samplePackets.flatMap encode).take 15, (samplePackets.flatMap encode).drop 15] ↔
      ∀ cs, cs <+: [(samplePackets.flatMap encode).take 15,
          (samplePackets.flatMap encode).drop 15] →
        Legible samplePackets cs.flatten.length :=
  packets_framed_iff new
    (fun p hp => by
      simp only [samplePackets, List.mem_cons, List.not_mem_nil, or_false] at hp
      rcases hp with rfl | rfl | rfl <;> exact ⟨by decide, by decide⟩)
    ⟨[], by simp⟩

def bareDisconn : Packet := ⟨0, ClientType.disconn, []⟩

/-- A packet with an empty payload and nothing behind it is not recognised. -/
theorem bareDisconn_waits :
    ¬FramedExactly (new : Multiplexer Unit) [bareDisconn] [encode bareDisconn] := by
  intro h
  obtain ⟨m', hm⟩ := h [encode bareDisconn] (List.prefix_refl _)
  have hf : PacketReader.scanner.front [encode bareDisconn].flatten = .wait :=
    PacketReader.front_short ([encode bareDisconn].flatten) (by decide +kernel)
  rw [feed_eq, Scanner.scan_wait hf] at hm
  have hcalls : [] = (fromBackend (κ := Unit)).completed [bareDisconn]
      [encode bareDisconn].flatten.length :=
    congrArg (fun s => s.1.calls) (Except.ok.inj hm)
  exact absurd hcalls (by decide +kernel)

end Multiplexer

end Muduo.Examples
