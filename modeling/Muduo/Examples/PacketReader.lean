import Muduo.Examples.BackendServer
import Muduo.Lib.Scanning

namespace Muduo.Examples
open Muduo.Lib Muduo.Net Multiplexer

/-- The loop that `Multiplexer::sendClientPacket` and `BackendServer::onMessage` share: what
they do with a length before they test it, and with a packet. -/
structure PacketReader (σ : Type) where
  inspect : σ → Int → σ
  dispatch : σ → Packet → σ

namespace PacketReader

variable {σ τ : Type} (r : PacketReader σ)

/-- One call on the readable bytes of `buff`, every read of them checked; returns what it
leaves. -/
def read (s : σ) (buff : Bytes) : Except Fault (σ × Bytes) :=
  if headerLen + 1 < buff.length then do
    let lenbe32 ← load buff 0 4
    let len := peekInt32 lenbe32
    let s := r.inspect s len
    let need ← intAdd (headerLen + 1) len
    if buff.length < sizeOfInt need then .ok (s, buff)
    -- `string(const char*, size_t)` with a negative length
    else if len < 0 then .error .lengthError
    else
      let idbe32 ← load buff 4 4
      let type ← load buff headerLen 1
      let msg ← load buff (headerLen + 1) len.toNat
      read (r.dispatch s ⟨peekInt32 idbe32, type.headD 0, msg⟩)
        (buff.drop (headerLen + 1 + len.toNat))
  else .ok (s, buff)
termination_by buff.length
decreasing_by
  rename_i h _ _
  rw [List.length_drop]
  omega

/-- What the loop finds at the front of the readable bytes. -/
def front (buff : Bytes) : Front Packet Fault :=
  if headerLen + 1 < buff.length then
    let len := peekInt32 buff
    match intAdd (headerLen + 1) len with
    | .error f => .fault f
    | .ok need =>
      if buff.length < sizeOfInt need then .wait
      else if len < 0 then .fault .lengthError
      else
        .item ⟨peekInt32 (buff.drop 4), (buff.drop headerLen).headD 0,
          (buff.drop (headerLen + 1)).take len.toNat⟩ (headerLen + 1 + len.toNat)
  else .wait

variable {buff : Bytes} {p : Packet} {n : Nat}

/-- The sum behind the header does not overflow downwards. -/
theorem need_cases (buff : Bytes) :
    (2 ^ 31 ≤ peekInt32 buff + 9 ∧ intAdd (headerLen + 1) (peekInt32 buff) = .error .overflow) ∨
    (peekInt32 buff + 9 < 2 ^ 31 ∧
      intAdd (headerLen + 1) (peekInt32 buff) = .ok (peekInt32 buff + 9)) := by
  obtain ⟨hlow, _⟩ := peekInt32_range buff
  have hsum : ((headerLen : Nat) : Int) + 1 + peekInt32 buff = peekInt32 buff + 9 := by
    unfold headerLen
    omega
  by_cases hover : 2 ^ 31 ≤ peekInt32 buff + 9
  · refine .inl ⟨hover, ?_⟩
    rw [intAdd, hsum, if_neg (by omega)]
  · refine .inr ⟨by omega, ?_⟩
    rw [intAdd, hsum, if_pos (by omega)]

theorem front_short (buff : Bytes) (h : buff.length ≤ headerLen + 1) : front buff = .wait :=
  if_neg (by omega)

/-- With more than the smallest header there, the length decides. -/
theorem front_cases (h : headerLen + 1 < buff.length) :
    (2 ^ 31 ≤ peekInt32 buff + 9 ∧ front buff = .fault .overflow) ∨
    (peekInt32 buff + 9 < 2 ^ 31 ∧ buff.length < sizeOfInt (peekInt32 buff + 9) ∧
      front buff = .wait) ∨
    (peekInt32 buff < 0 ∧ sizeOfInt (peekInt32 buff + 9) ≤ buff.length ∧
      front buff = .fault .lengthError) ∨
    (0 ≤ peekInt32 buff ∧ peekInt32 buff + 9 < 2 ^ 31 ∧
      headerLen + 1 + (peekInt32 buff).toNat ≤ buff.length ∧
      front buff = .item ⟨peekInt32 (buff.drop 4), (buff.drop headerLen).headD 0,
          (buff.drop (headerLen + 1)).take (peekInt32 buff).toNat⟩
        (headerLen + 1 + (peekInt32 buff).toNat)) := by
  unfold front
  rw [if_pos h]
  rcases need_cases buff with ⟨hover, hneed⟩ | ⟨hfit, hneed⟩
  · exact .inl ⟨hover, by simp only [hneed]⟩
  · simp only [hneed]
    by_cases hlack : buff.length < sizeOfInt (peekInt32 buff + 9)
    · exact .inr (.inl ⟨hfit, hlack, if_pos hlack⟩)
    · by_cases hneg : peekInt32 buff < 0
      · exact .inr (.inr (.inl ⟨hneg, by omega, by rw [if_neg hlack, if_pos hneg]⟩))
      · refine .inr (.inr (.inr ⟨by omega, hfit, ?_, by rw [if_neg hlack, if_neg hneg]⟩))
        have hsize : sizeOfInt (peekInt32 buff + 9) = (peekInt32 buff + 9).toNat := by
          obtain ⟨k, hk⟩ := Int.eq_ofNat_of_zero_le (a := peekInt32 buff + 9) (by omega)
          rw [hk, sizeOfInt_natCast (by omega), Int.toNat_natCast]
        unfold headerLen
        omega

theorem encode_of_front (h : headerLen + 1 + (peekInt32 buff).toNat ≤ buff.length)
    (h0 : 0 ≤ peekInt32 buff) :
    BackendServer.encode ⟨peekInt32 (buff.drop 4), (buff.drop headerLen).headD 0,
        (buff.drop (headerLen + 1)).take (peekInt32 buff).toNat⟩ =
      buff.take (headerLen + 1 + (peekInt32 buff).toNat) := by
  have hheader : headerLen = 8 := rfl
  have hpay : ((buff.drop (headerLen + 1)).take (peekInt32 buff).toNat).length =
      (peekInt32 buff).toNat := by
    rw [List.length_take, List.length_drop]
    omega
  have hlen : BigEndian.encode 4 (peekInt32 buff).toNat = buff.take 4 := by
    rw [← encode_peekInt32 (b := buff) (by omega)]
    obtain ⟨k, hk⟩ := Int.eq_ofNat_of_zero_le h0
    obtain ⟨_, hlt⟩ := peekInt32_range buff
    rw [hk, Int.toNat_natCast, Word.ofSigned_natCast 32 (by omega)]
  have hid := encode_peekInt32 (b := buff.drop 4) (by rw [List.length_drop]; omega)
  have htail : (buff.drop headerLen).take (1 + (peekInt32 buff).toNat) =
      (buff.drop headerLen).headD 0 :: (buff.drop (headerLen + 1)).take (peekInt32 buff).toNat := by
    have hlt : headerLen < buff.length := by omega
    rw [List.drop_eq_getElem_cons hlt, Nat.add_comm 1, List.take_succ_cons]
    rfl
  have hhead : buff.take headerLen = buff.take 4 ++ (buff.drop 4).take 4 :=
    List.take_add (i := 4) (j := 4)
  simp only [BackendServer.encode, hpay, hlen, hid]
  rw [Nat.add_assoc headerLen, List.take_add, htail, hhead]

/-- Where the loop finds a packet, the bytes of that packet stand. -/
theorem front_item (h : front buff = .item p n) :
    BackendServer.OnWire p ∧ p.payload.length + 9 < 2 ^ 31 ∧ n = (BackendServer.encode p).length ∧
      buff.take n = BackendServer.encode p ∧ headerLen + 1 < buff.length ∧ n ≤ buff.length := by
  by_cases hlong : headerLen + 1 < buff.length
  · rcases front_cases hlong with ⟨_, hf⟩ | ⟨_, _, hf⟩ | ⟨_, _, hf⟩ | ⟨h0, hfit, hle, hf⟩
    · cases hf.symm.trans h
    · cases hf.symm.trans h
    · cases hf.symm.trans h
    · cases hf.symm.trans h
      have henc := encode_of_front hle h0
      have hlen := congrArg List.length henc
      rw [List.length_take, Nat.min_eq_left hle] at hlen
      have hpay : ((buff.drop (headerLen + 1)).take (peekInt32 buff).toNat).length =
          (peekInt32 buff).toNat := by
        rw [List.length_take, List.length_drop]
        omega
      obtain ⟨hidlow, hidhigh⟩ := peekInt32_range (buff.drop 4)
      refine ⟨⟨?_, hidlow, hidhigh⟩, ?_, hlen.symm, henc.symm, hlong, hle⟩
      · change ((buff.drop (headerLen + 1)).take _).length < _
        omega
      · change ((buff.drop (headerLen + 1)).take _).length + 9 < _
        omega
  · cases (front_short _ (by omega)).symm.trans h

theorem front_encode (h : BackendServer.OnWire p) (hfit : p.payload.length + 9 < 2 ^ 31)
    {rest : Bytes} (hlong : headerLen + 1 < (BackendServer.encode p ++ rest).length) :
    front (BackendServer.encode p ++ rest) = .item p (BackendServer.encode p).length := by
  have hlen := BackendServer.encode_length p
  have hpeek := BackendServer.peek_length h rest
  have htotal : (BackendServer.encode p ++ rest).length =
      headerLen + 1 + p.payload.length + rest.length := by rw [List.length_append, hlen]
  have hheader : headerLen = 8 := rfl
  rcases front_cases hlong with ⟨hover, _⟩ | ⟨_, hlack, _⟩ | ⟨hneg, _, _⟩ | ⟨_, _, _, hf⟩
  · omega
  · have hsize := sizeOfInt_natCast (n := p.payload.length + 9) (by omega)
    rw [hpeek] at hlack
    push_cast at hsize
    omega
  · omega
  · rw [hf, hpeek, Int.toNat_natCast, BackendServer.peek_id h, BackendServer.drop_header,
      ← List.drop_drop, BackendServer.drop_header, hlen]
    simp

theorem front_overflow (buff : Bytes) (h : 2 ^ 31 ≤ peekInt32 buff + 9)
    (hlong : headerLen + 1 < buff.length) :
    front buff = .fault .overflow := by
  rcases front_cases hlong with ⟨_, hf⟩ | ⟨hfit, _, _⟩ | ⟨hneg, _, _⟩ | ⟨_, hfit, _, _⟩
  · exact hf
  all_goals omega

theorem front_lacks (buff : Bytes) (h0 : 0 ≤ peekInt32 buff) (hfit : peekInt32 buff + 9 < 2 ^ 31)
    (hlack : buff.length < headerLen + 1 + (peekInt32 buff).toNat) : front buff = .wait := by
  by_cases hlong : headerLen + 1 < buff.length
  · rcases front_cases hlong with ⟨hover, _⟩ | ⟨_, _, hf⟩ | ⟨hneg, _, _⟩ | ⟨_, _, hle, _⟩
    · omega
    · exact hf
    all_goals omega
  · exact front_short _ (by omega)

theorem front_bounds (h : front buff = .item p n) : 0 < n ∧ n ≤ buff.length := by
  obtain ⟨_, _, hn, _, _, hle⟩ := front_item h
  have hlen := BackendServer.encode_length p
  exact ⟨by omega, hle⟩

theorem front_stable (c : Bytes) (h : front buff ≠ .wait) : front (buff ++ c) = front buff := by
  by_cases hlong : headerLen + 1 < buff.length
  · have h4 : 4 ≤ buff.length := by
      unfold headerLen at hlong
      omega
    have hpeek := peekInt32_append h4 c
    have hlong' : headerLen + 1 < (buff ++ c).length := by
      rw [List.length_append]
      omega
    have hcases := front_cases hlong'
    rw [hpeek, List.length_append] at hcases
    cases hf : front buff with
    | wait => exact absurd hf h
    | item p n =>
      obtain ⟨hwire, hfit, hn, htake, _, _⟩ := front_item hf
      have hsplit : buff ++ c = BackendServer.encode p ++ (buff.drop n ++ c) := by
        rw [← htake, ← List.append_assoc, List.take_append_drop]
      rw [hsplit] at hlong' ⊢
      rw [front_encode hwire hfit hlong', hn]
    | fault f =>
      rcases front_cases hlong with ⟨hover, hf'⟩ | ⟨_, _, hf'⟩ | ⟨hneg, hsize, hf'⟩ | ⟨_, _, _, hf'⟩
      · rw [front_overflow _ (by omega) hlong', ← hf, hf']
      · cases hf.symm.trans hf'
      · rcases hcases with ⟨_, _⟩ | ⟨_, hlack, _⟩ | ⟨_, _, hf''⟩ | ⟨h0, _, _, _⟩
        · omega
        · omega
        · rw [hf'', ← hf, hf']
        · omega
      · cases hf.symm.trans hf'
  · exact absurd (front_short _ (by omega)) h

def scanner : Scanner Packet UInt8 Fault := ⟨front, front_bounds, front_stable⟩

def handle (s : σ) (p : Packet) : σ := r.dispatch (r.inspect s p.payload.length) p

/-- The length of a packet that is not complete is looked at too. -/
def settle (s : σ) (rest : Bytes) : σ :=
  if headerLen + 1 < rest.length then r.inspect s (peekInt32 rest) else s

/-- No read goes past the readable bytes. -/
theorem read_long (s : σ) (h : headerLen + 1 < buff.length) :
    r.read s buff = intAdd (headerLen + 1) (peekInt32 buff) >>= fun need =>
      if buff.length < sizeOfInt need then .ok (r.inspect s (peekInt32 buff), buff)
      else if peekInt32 buff < 0 then .error .lengthError
      else load buff (headerLen + 1) (peekInt32 buff).toNat >>= fun msg =>
        r.read (r.dispatch (r.inspect s (peekInt32 buff))
            ⟨peekInt32 (buff.drop 4), (buff.drop headerLen).headD 0, msg⟩)
          (buff.drop (headerLen + 1 + (peekInt32 buff).toNat)) := by
  have hheader : headerLen = 8 := rfl
  have hlen : load buff 0 4 = .ok (buff.take 4) := load_of_le (by omega)
  have hid : load buff 4 4 = .ok ((buff.drop 4).take 4) := load_of_le (by omega)
  have htype : load buff headerLen 1 = .ok ((buff.drop headerLen).take 1) := load_of_le (by omega)
  have hhead : ((buff.drop headerLen).take 1).headD 0 = (buff.drop headerLen).headD 0 := by
    cases buff.drop headerLen <;> rfl
  rw [read, if_pos h]
  simp only [hlen, hid, htype, ok_bind, peekInt32_take _ (Nat.le_refl 4), hhead]

/-- One call takes off the packets at the front and leaves what is no whole packet. -/
theorem read_eq (s : σ) (buff : Bytes) :
    r.read s buff = scanner.scan buff >>= fun t =>
      .ok (r.settle (t.1.foldl r.handle s) t.2, t.2) := by
  induction buff using Scanner.scan.induct scanner generalizing s with
  | case1 buff hw =>
    rw [Scanner.scan_wait hw, ok_bind, List.foldl_nil, settle]
    by_cases hlong : headerLen + 1 < buff.length
    · rw [r.read_long s hlong, if_pos hlong]
      rcases need_cases buff with ⟨hover, _⟩ | ⟨hfit, hneed⟩
      · cases (front_overflow _ hover hlong).symm.trans hw
      · rcases front_cases hlong with ⟨_, _⟩ | ⟨_, hlack, _⟩ | ⟨_, _, hf⟩ | ⟨_, _, _, hf⟩
        · omega
        · rw [hneed, ok_bind, if_pos hlack]
        · cases hf.symm.trans hw
        · cases hf.symm.trans hw
    · rw [read, if_neg hlong, if_neg hlong]
  | case2 buff f hf =>
    rw [Scanner.scan_fault hf, error_bind]
    have hlong : headerLen + 1 < buff.length := by
      by_contra hshort
      cases (front_short _ (by omega)).symm.trans hf
    rw [r.read_long s hlong]
    rcases need_cases buff with ⟨hover, hneed⟩ | ⟨hfit, hneed⟩
    · cases (front_overflow _ hover hlong).symm.trans hf
      rw [hneed, error_bind]
    · rcases front_cases hlong with ⟨hover, _⟩ | ⟨_, _, hf'⟩ | ⟨hneg, hsize, hf'⟩ | ⟨_, _, _, hf'⟩
      · omega
      · cases hf'.symm.trans hf
      · cases hf'.symm.trans hf
        rw [hneed, ok_bind, if_neg (by omega), if_pos hneg]
      · cases hf'.symm.trans hf
  | case3 buff p n hi ih =>
    obtain ⟨_, hfit, _, _, hlong, hle⟩ := front_item hi
    rw [Scanner.scan_item hi, r.read_long s hlong]
    rcases front_cases hlong with ⟨_, hf⟩ | ⟨_, _, hf⟩ | ⟨_, _, hf⟩ | ⟨h0, hlt, hall, hf⟩
    · cases hf.symm.trans hi
    · cases hf.symm.trans hi
    · cases hf.symm.trans hi
    · cases hf.symm.trans hi
      rcases need_cases buff with ⟨hover, _⟩ | ⟨_, hneed⟩
      · omega
      obtain ⟨k, hk⟩ := Int.eq_ofNat_of_zero_le h0
      have hsize : sizeOfInt (peekInt32 buff + 9) = k + 9 := by
        have hcast := sizeOfInt_natCast (n := k + 9) (by omega)
        push_cast at hcast
        rw [hk, hcast]
      have hheader : headerLen = 8 := rfl
      have hmsg : load buff (headerLen + 1) k = .ok ((buff.drop (headerLen + 1)).take k) :=
        load_of_le (by omega)
      have hpay : ((buff.drop (headerLen + 1)).take k).length = k := by
        rw [List.length_take, List.length_drop]
        omega
      rw [hneed, ok_bind, if_neg (by omega), if_neg (by omega)]
      simp only [hk, Int.toNat_natCast, hmsg, ok_bind] at ih ⊢
      rw [ih]
      cases scanner.scan (buff.drop (headerLen + 1 + k)) with
      | error f => rfl
      | ok t => simp only [ok_bind, List.foldl_cons, handle, hpay]

end PacketReader

end Muduo.Examples
