import Muduo.Lib.Tagged
import Muduo.Net.ServerConnection

namespace Muduo.Net
open Muduo.Lib

theorem decimal_natCast (n : Nat) :
    decimal n = (Nat.toDigits 10 n).map fun c => UInt8.ofNat c.toNat := by
  rw [decimal, if_neg (by omega), Int.natAbs_natCast, List.nil_append]

theorem decimal_length {n : Nat} (h : n < 2 ^ 31) : (decimal n).length ≤ 10 := by
  rw [decimal_natCast, List.length_map, Nat.length_toDigits_le_iff (by decide) (by decide)]
  omega

theorem decimal_inj {m n : Nat} (h : decimal m = decimal n) : m = n := by
  have hback : ∀ k : Nat, (decimal k).map (fun b => Char.ofNat b.toNat) = Nat.toDigits 10 k := by
    intro k
    rw [decimal_natCast, List.map_map]
    refine (List.map_congr_left fun c hc => ?_).trans (List.map_id _)
    have hdigit := Nat.isDigit_of_mem_toDigits (by decide) (by decide) hc
    have hlt : c.toNat < 256 := by
      simp only [Char.isDigit, Bool.and_eq_true, decide_eq_true_eq, ge_iff_le,
        UInt32.le_iff_toNat_le] at hdigit
      have : c.toNat = c.val.toNat := rfl
      have hnine : '9'.val.toNat = 57 := rfl
      omega
    simp only [Function.comp, UInt8.toNat_ofNat', id]
    rw [Nat.mod_eq_of_lt hlt, Char.ofNat_toNat]
  have hdigits := congrArg (List.map fun b => Char.ofNat b.toNat) h
  rw [hback, hback] at hdigits
  rw [← Nat.ofDigitChars_ten_toDigits (n := m), hdigits, Nat.ofDigitChars_ten_toDigits]

namespace TcpServer

variable {s s' : TcpServer} {k k' : Nat} {l l' : LoopId} {r : ServerConnection} {n : Nat}

/-- Neither the address nor the counter is cut off in `buf`, so that names tell connections
apart. -/
theorem connName_inj (hk : k < 2 ^ 31) (hk' : k' < 2 ^ 31) (h : s.connName k = s.connName k') :
    k = k' := by
  have huncut : ∀ i : Nat, i < 2 ^ 31 →
      snprintf 64 (ascii "-" ++ s.ipPort.text ++ ascii "#" ++ decimal i) =
        ascii "-" ++ s.ipPort.text ++ ascii "#" ++ decimal i := by
    intro i hi
    have hlen := decimal_length hi
    have htext := s.ipPort.length_le
    have hdash : (ascii "-").length = 1 := rfl
    have hhash : (ascii "#").length = 1 := rfl
    refine List.take_of_length_le ?_
    simp only [List.length_append]
    omega
  rw [connName, connName, huncut k hk, huncut k' hk', List.append_cancel_left_eq,
    List.append_cancel_left_eq] at h
  exact decimal_inj h

/-- The server as one connection sees it: its functors and callbacks in each loop, the loops that
are in its `handleClose`, and whether `connections_` has it. -/
@[ext] structure View where
  queue : LoopId → List Task
  callbacks : LoopId → List Channel.Callback
  closing : LoopId → Bool
  listed : Prop

def view (s : TcpServer) (k : Nat) : View where
  queue := fun l => tagged k (s.pendingFunctors l)
  callbacks := fun l => tagged k (s.callbacks l)
  closing := fun l => s.closing l = some k
  listed := s.connections (s.connName k) = some k

/-- What happens to a connection of the loop `l`, and where. -/
def lifeCycle (l : LoopId) : List (Milestone × LoopId) :=
  [(.newConnection, 0), (.connectEstablished, l), (.down, l), (.erased, 0), (.connectDestroyed, l)]

/-- A connection after `n` milestones. -/
structure Stands (c : TcpConnection) (n : Nat) : Prop where
  drained : c.pendingFunctors = []
  fresh : n = 1 → c.Fresh
  alive : 2 ≤ n → c.Alive
  up : n = 2 → c.state ≠ .kDisconnected
  down : 3 ≤ n → c.state = .kDisconnected
  registered : 2 ≤ n → n ≤ 4 → c.channel.registered = true

/-- A connection after `n` milestones, with what is under way for the next one: the functor that
establishes it, `closeCallback_` or the functor that removes it, the functor that destroys it. -/
structure Tracked (v : View) (r : ServerConnection) (n : Nat) : Prop where
  history : r.history = (lifeCycle r.loop).take n
  started : 1 ≤ n
  listed : v.listed ↔ n ≤ 3
  established : ∀ l, (v.queue l).count .connectEstablished = if n = 1 ∧ l = r.loop then 1 else 0
  destroyed : ∀ l, (v.queue l).count (.own .connectDestroyed) =
    if n = 4 ∧ l = r.loop then 1 else 0
  removing : (v.closing r.loop).toNat + (v.queue 0).count .removeConnectionInLoop =
    if n = 3 then 1 else 0
  base : ∀ l, .removeConnectionInLoop ∈ v.queue l → l = 0
  own : ∀ l f, .own f ∈ v.queue l → l = r.loop ∧ 2 ≤ n
  closing : ∀ l, v.closing l = true → l = r.loop
  callbacks : ∀ l, v.callbacks l ≠ [] → l = r.loop ∧ 2 ≤ n
  once : (v.callbacks r.loop).countP System.closing ≤ 1
  settled : n ≠ 2 → (v.callbacks r.loop).countP System.closing = 0
  conn : Stands r.conn n

/-- One functor fewer in the loop `l`. -/
def View.pop (v : View) (l : LoopId) (q : List Task) : View :=
  { v with queue := Function.update v.queue l q }

/-- Functors for the loop `l`. -/
def View.push (v : View) (l : LoopId) (ts : List Task) : View :=
  { v with queue := Function.update v.queue l (v.queue l ++ ts) }

variable {v : View} {t : Task} {q : List Task}

theorem View.pop_self (v : View) (l : LoopId) (q : List Task) : (v.pop l q).queue l = q :=
  Function.update_self ..

theorem View.pop_ne (h : l' ≠ l) : (v.pop l q).queue l' = v.queue l' := Function.update_of_ne h ..

theorem View.push_self (v : View) (l : LoopId) (ts : List Task) :
    (v.push l ts).queue l = v.queue l ++ ts := Function.update_self ..

theorem View.push_ne {ts : List Task} (h : l' ≠ l) : (v.push l ts).queue l' = v.queue l' :=
  Function.update_of_ne h ..

theorem pop_count (h : v.queue l = t :: q) (x : Task) (l' : LoopId) :
    (v.queue l').count x = ((v.pop l q).queue l').count x + if l' = l ∧ t = x then 1 else 0 := by
  by_cases hl : l' = l
  · subst hl
    rw [h, List.count_cons, View.pop_self]
    simp
  · rw [View.pop_ne hl, if_neg fun hc => hl hc.1, Nat.add_zero]

theorem pop_mem (h : v.queue l = t :: q) {x : Task} (hx : x ∈ (v.pop l q).queue l') :
    x ∈ v.queue l' := by
  have hcount := pop_count h x l'
  have := List.count_pos_iff.mpr hx
  exact List.count_pos_iff.mp (by omega)

theorem push_count (v : View) (l l' : LoopId) (ts : List Task) (x : Task) :
    ((v.push l ts).queue l').count x =
      (v.queue l').count x + if l' = l then ts.count x else 0 := by
  by_cases hl : l' = l
  · subst hl
    rw [View.push_self, List.count_append, if_pos rfl]
  · rw [View.push_ne hl, if_neg hl, Nat.add_zero]

theorem push_mem {ts : List Task} {x : Task} (hx : x ∈ (v.push l ts).queue l') :
    x ∈ v.queue l' ∨ l' = l ∧ x ∈ ts := by
  by_cases hl : l' = l
  · subst hl
    rw [View.push_self] at hx
    exact (List.mem_append.mp hx).imp_right fun hx => ⟨rfl, hx⟩
  · rw [View.push_ne hl] at hx
    exact .inl hx

theorem Stands.kept {c c' : TcpConnection} (h : Stands c n) (hn : 2 ≤ n) (hk : c.Kept c') :
    Stands { c' with pendingFunctors := [] } n where
  drained := rfl
  fresh := fun h1 => by omega
  alive := fun _ => hk.alive.drained
  up := fun h2 hd => h.up h2 (hk.state.mp hd)
  down := fun h3 => hk.state.mpr (h.down h3)
  registered := fun h2 h4 => hk.registered (h.registered h2 h4)

theorem no_destroy {c c' : TcpConnection} (h : c.pendingFunctors = []) (hf : c.Frame c') :
    Functor.connectDestroyed ∉ c'.pendingFunctors := by
  have := hf.pending
  rw [h, List.count_nil] at this
  exact List.count_eq_zero.mp (Nat.le_zero.mp this)

theorem own_count {fs : List Functor} (h : Functor.connectDestroyed ∉ fs) :
    (fs.map Task.own).count .connectEstablished = 0 ∧
      (fs.map Task.own).count .removeConnectionInLoop = 0 ∧
        (fs.map Task.own).count (.own .connectDestroyed) = 0 := by
  refine ⟨List.count_eq_zero.mpr ?_, List.count_eq_zero.mpr ?_, List.count_eq_zero.mpr ?_⟩ <;>
    simp [h]

/-- A member function that keeps the connection as it is. -/
theorem Tracked.keep (h : Tracked v r n) (hn : 2 ≤ n) {c : TcpConnection} (hk : r.conn.Kept c) :
    Tracked (v.push r.loop (c.pendingFunctors.map .own))
      { r with conn := { c with pendingFunctors := [] } } n := by
  obtain ⟨hest, hrem, hdes⟩ := own_count (no_destroy h.conn.drained hk.toFrame)
  exact {
    history := h.history
    started := h.started
    listed := h.listed
    established := fun l => by simp only [push_count, hest, ite_self, Nat.add_zero, h.established]
    destroyed := fun l => by simp only [push_count, hdes, ite_self, Nat.add_zero, h.destroyed]
    removing := by
      simp only [push_count, hrem, ite_self, Nat.add_zero]
      exact h.removing
    base := fun l hl => by
      rcases push_mem hl with hl | ⟨-, hl⟩
      · exact h.base l hl
      · simp at hl
    own := fun l f hl => by
      rcases push_mem hl with hl | ⟨hl, -⟩
      · exact h.own l f hl
      · exact ⟨hl, hn⟩
    closing := h.closing
    callbacks := h.callbacks
    once := h.once
    settled := h.settled
    conn := h.conn.kept hn hk }

/-- `handleClose` up to `closeCallback_`, with no further callback that may close to come. -/
theorem Tracked.close (h : Tracked v r 2) {c : TcpConnection} (hc : r.conn.Closed c)
    (hcb : (v.callbacks r.loop).countP System.closing = 0) :
    Tracked { v.push r.loop (c.pendingFunctors.map .own) with
        closing := Function.update v.closing r.loop true }
      { r with
        conn := { c with pendingFunctors := [] }, history := r.history ++ [(.down, r.loop)] } 3 := by
  obtain ⟨hest, hrem, hdes⟩ := own_count (no_destroy h.conn.drained hc.toFrame)
  exact {
    history := by rw [h.history]; rfl
    started := by omega
    listed := h.listed.trans (by omega)
    established := fun l => by
      have hl := push_count v r.loop l (c.pendingFunctors.map .own) .connectEstablished
      rw [hest, ite_self, Nat.add_zero, h.established] at hl
      exact hl
    destroyed := fun l => by
      have hl := push_count v r.loop l (c.pendingFunctors.map .own) (.own .connectDestroyed)
      rw [hdes, ite_self, Nat.add_zero, h.destroyed] at hl
      exact hl
    removing := by
      have hl := push_count v r.loop 0 (c.pendingFunctors.map .own) .removeConnectionInLoop
      have hzero := h.removing
      rw [hrem, ite_self, Nat.add_zero] at hl
      simp only [Function.update_self, Bool.toNat_true]
      simp at hzero
      rw [hl, hzero.2]
      rfl
    base := fun l hl => by
      rcases push_mem hl with hl | ⟨-, hl⟩
      · exact h.base l hl
      · simp at hl
    own := fun l f hl => by
      rcases push_mem hl with hl | ⟨hl, -⟩
      · exact ⟨(h.own l f hl).1, by omega⟩
      · exact ⟨hl, by omega⟩
    closing := fun l hl => by
      by_cases hlr : l = r.loop
      · exact hlr
      · exact h.closing l (by simpa [Function.update_of_ne hlr] using hl)
    callbacks := fun l hl => ⟨(h.callbacks l hl).1, by omega⟩
    once := h.once
    settled := fun _ => hcb
    conn := {
      drained := rfl
      fresh := nofun
      alive := fun _ => hc.alive.drained
      up := nofun
      down := fun _ => hc.closed
      registered := fun _ _ => hc.registered (h.conn.registered (by omega) (by omega)) } }

/-- A call before the connection is established. -/
theorem Tracked.idle (h : Tracked v r 1) {c : TcpConnection} (hc : c.Fresh) :
    Tracked v { r with conn := { c with pendingFunctors := [] } } 1 :=
  { h with conn := ⟨rfl, fun _ => ⟨hc.state, hc.channel, hc.reading, hc.input, hc.output, hc.closes⟩,
      nofun, nofun, nofun, nofun⟩ }

theorem Tracked.establish (h : Tracked v r n) (hq : v.queue l = .connectEstablished :: q) :
    n = 1 ∧ l = r.loop ∧ ∀ c : TcpConnection, c.Alive → c.state ≠ .kDisconnected →
      c.channel.registered = true → c.pendingFunctors = [] →
      Tracked (v.pop l q) { r with
        conn := c, history := r.history ++ [(.connectEstablished, r.loop)] } 2 := by
  have hhere : n = 1 ∧ l = r.loop := by
    have := h.established l
    rw [hq, List.count_cons_self] at this
    by_contra hne
    rw [if_neg hne] at this
    omega
  obtain ⟨rfl, rfl⟩ := hhere
  refine ⟨rfl, rfl, fun c ha hup hr hp => ?_⟩
  have hest := pop_count hq .connectEstablished
  have hdes := pop_count hq (.own .connectDestroyed)
  have hrem := pop_count hq .removeConnectionInLoop 0
  exact {
    history := by rw [h.history]; rfl
    started := by omega
    listed := h.listed.trans (by omega)
    established := fun l => by
      have := h.established l
      rw [hest l] at this
      by_cases hl : l = r.loop <;> simp [hl] at this ⊢ <;> omega
    destroyed := fun l => by
      have := h.destroyed l
      rw [hdes l] at this
      simpa using this
    removing := by
      have := h.removing
      rw [hrem] at this
      change (v.closing r.loop).toNat + _ = _
      simpa using this
    base := fun l hl => h.base l (pop_mem hq hl)
    own := fun l f hl => ⟨(h.own l f (pop_mem hq hl)).1, by omega⟩
    closing := h.closing
    callbacks := fun l hl => ⟨(h.callbacks l hl).1, by omega⟩
    once := h.once
    settled := fun hne => absurd rfl hne
    conn := ⟨hp, nofun, fun _ => ha, fun _ => hup, nofun, fun _ _ => hr⟩ }

/-- `closeCallback_` queues the functor that removes the connection. -/
theorem Tracked.leave (h : Tracked v r n) (hc : v.closing l = true) :
    n = 3 ∧ l = r.loop ∧
      Tracked { v.push 0 [.removeConnectionInLoop] with
        closing := Function.update v.closing l false } r 3 := by
  obtain rfl := h.closing l hc
  have hthree : n = 3 := by
    have := h.removing
    rw [hc, Bool.toNat_true] at this
    by_contra hne
    rw [if_neg hne] at this
    omega
  subst hthree
  have hcount := push_count v 0
  refine ⟨rfl, rfl, {
    history := h.history
    started := h.started
    listed := h.listed
    established := fun l => by
      have hl := hcount l [.removeConnectionInLoop] .connectEstablished
      simp only [List.count_singleton, reduceCtorEq, beq_iff_eq, if_false, ite_self, Nat.add_zero] at hl
      exact hl.trans (h.established l)
    destroyed := fun l => by
      have hl := hcount l [.removeConnectionInLoop] (.own .connectDestroyed)
      simp only [List.count_singleton, reduceCtorEq, beq_iff_eq, if_false, ite_self, Nat.add_zero] at hl
      exact hl.trans (h.destroyed l)
    removing := by
      have hl := hcount 0 [.removeConnectionInLoop] .removeConnectionInLoop
      have hone := h.removing
      rw [List.count_singleton_self, if_pos rfl] at hl
      rw [hc, Bool.toNat_true, if_pos rfl] at hone
      simp only [Function.update_self, Bool.toNat_false, if_true]
      omega
    base := fun l hl => by
      rcases push_mem hl with hl | ⟨hl, -⟩
      · exact h.base l hl
      · exact hl
    own := fun l f hl => by
      rcases push_mem hl with hl | ⟨-, hl⟩
      · exact h.own l f hl
      · exact nomatch List.mem_singleton.mp hl
    closing := fun l hl => by
      by_cases hlr : l = r.loop
      · exact hlr
      · exact h.closing l (by simpa [Function.update_of_ne hlr] using hl)
    callbacks := h.callbacks
    once := h.once
    settled := h.settled
    conn := h.conn }⟩

/-- `removeConnectionInLoop`, where nothing is under way to it any more. -/
theorem Tracked.erase (h : Tracked v r 3) {v' : View} (hq : v'.queue 0 = v.queue 0 ∨
      v.queue 0 = .removeConnectionInLoop :: v'.queue 0)
    (hqs : ∀ l, l ≠ 0 → v'.queue l = v.queue l) (hcb : v'.callbacks = v.callbacks)
    (hnone : (v'.closing r.loop).toNat + (v'.queue 0).count .removeConnectionInLoop = 0)
    (hcl : ∀ l, v'.closing l = true → l = r.loop) (hlisted : ¬v'.listed) :
    Tracked (v'.push r.loop [.own .connectDestroyed])
      { r with history := r.history ++ [(.erased, 0)] } 4 := by
  have hcount : ∀ l x, x ≠ Task.removeConnectionInLoop → (v'.queue l).count x = (v.queue l).count x := by
    intro l x hx
    by_cases hl : l = 0
    · subst hl
      rcases hq with hq | hq
      · rw [hq]
      · rw [hq, List.count_cons_of_ne hx.symm]
    · rw [hqs l hl]
  have hmem : ∀ l x, x ∈ v'.queue l → x ∈ v.queue l := by
    intro l x hx
    by_cases hl : l = 0
    · subst hl
      rcases hq with hq | hq
      · rwa [← hq]
      · rw [hq]
        exact List.mem_cons_of_mem _ hx
    · rwa [← hqs l hl]
  have hpush := push_count v' r.loop
  exact {
    history := by rw [h.history]; rfl
    started := by omega
    listed := iff_of_false hlisted (by omega)
    established := fun l => by
      have hold := h.established l
      rw [hpush, hcount l .connectEstablished nofun, hold]
      simp
    destroyed := fun l => by
      have hold := h.destroyed l
      rw [hpush, hcount l (.own .connectDestroyed) nofun, hold]
      simp
    removing := by
      rw [hpush]
      simp only [List.count_singleton, reduceCtorEq, beq_iff_eq, if_false, ite_self, Nat.add_zero]
      exact hnone
    base := fun l hl => by
      rcases push_mem hl with hl | ⟨-, hl⟩
      · exact h.base l (hmem l _ hl)
      · exact nomatch List.mem_singleton.mp hl
    own := fun l f hl => by
      rcases push_mem hl with hl | ⟨hl, -⟩
      · exact ⟨(h.own l f (hmem l _ hl)).1, by omega⟩
      · exact ⟨hl, by omega⟩
    closing := hcl
    callbacks := fun l hl => by
      have hl : v'.callbacks l ≠ [] := hl
      rw [hcb] at hl
      exact ⟨(h.callbacks l hl).1, by omega⟩
    once := by
      change (v'.callbacks r.loop).countP _ ≤ 1
      rw [hcb]
      exact h.once
    settled := fun _ => by
      change (v'.callbacks r.loop).countP _ = 0
      rw [hcb]
      exact h.settled nofun
    conn := {
      drained := h.conn.drained
      fresh := nofun
      alive := fun _ => h.conn.alive (by omega)
      up := nofun
      down := fun _ => h.conn.down (by omega)
      registered := fun _ _ => h.conn.registered (by omega) (by omega) } }

/-- Where `removeConnectionInLoop` is queued. -/
theorem Tracked.removal (h : Tracked v r n) (hq : v.queue l = .removeConnectionInLoop :: q) :
    n = 3 ∧ l = 0 ∧ v.closing r.loop = false ∧ q.count .removeConnectionInLoop = 0 := by
  obtain rfl := h.base l (by rw [hq]; exact List.mem_cons_self)
  have hcount := h.removing
  rw [hq, List.count_cons_self] at hcount
  have hthree : n = 3 := by
    by_contra hne
    rw [if_neg hne] at hcount
    omega
  rw [if_pos hthree] at hcount
  refine ⟨hthree, rfl, ?_, by omega⟩
  cases hc : v.closing r.loop with
  | false => rfl
  | true =>
    rw [hc, Bool.toNat_true] at hcount
    omega

theorem Tracked.destroy (h : Tracked v r n) (hq : v.queue l = .own .connectDestroyed :: q) :
    n = 4 ∧ l = r.loop ∧ ∀ c : TcpConnection, c.Alive → c.state = .kDisconnected →
      c.pendingFunctors = [] →
      Tracked (v.pop l q) { r with
        conn := c, history := r.history ++ [(.connectDestroyed, r.loop)] } 5 := by
  have hhere : n = 4 ∧ l = r.loop := by
    have := h.destroyed l
    rw [hq, List.count_cons_self] at this
    by_contra hne
    rw [if_neg hne] at this
    omega
  obtain ⟨rfl, rfl⟩ := hhere
  refine ⟨rfl, rfl, fun c ha hdown hp => ?_⟩
  have hest := pop_count hq .connectEstablished
  have hdes := pop_count hq (.own .connectDestroyed)
  have hrem := pop_count hq .removeConnectionInLoop 0
  exact {
    history := by rw [h.history]; rfl
    started := by omega
    listed := h.listed.trans (by omega)
    established := fun l => by
      have := h.established l
      rw [hest l] at this
      simpa using this
    destroyed := fun l => by
      have := h.destroyed l
      rw [hdes l] at this
      by_cases hl : l = r.loop <;> simp [hl] at this ⊢ <;> omega
    removing := by
      have := h.removing
      rw [hrem] at this
      change (v.closing r.loop).toNat + _ = _
      simpa using this
    base := fun l hl => h.base l (pop_mem hq hl)
    own := fun l f hl => ⟨(h.own l f (pop_mem hq hl)).1, by omega⟩
    closing := h.closing
    callbacks := fun l hl => ⟨(h.callbacks l hl).1, by omega⟩
    once := h.once
    settled := fun _ => h.settled nofun
    conn := ⟨hp, nofun, fun _ => ha, nofun, fun _ => hdown, fun _ _ => by omega⟩ }

/-- A functor of the connection itself is taken out of its loop. -/
theorem Tracked.next {f : Functor} (h : Tracked v r n) (hq : v.queue l = .own f :: q)
    (hf : f ≠ .connectDestroyed) : l = r.loop ∧ 2 ≤ n ∧ Tracked (v.pop l q) r n := by
  obtain ⟨rfl, hn⟩ := h.own l f (by rw [hq]; exact List.mem_cons_self)
  have hcount : ∀ x, x ≠ Task.own f → ∀ l, ((v.pop r.loop q).queue l).count x = (v.queue l).count x := by
    intro x hx l
    rw [pop_count hq x l, if_neg fun hc => hx hc.2.symm, Nat.add_zero]
  exact ⟨rfl, hn, {
    history := h.history
    started := h.started
    listed := h.listed
    established := fun l => (hcount .connectEstablished nofun l).trans (h.established l)
    destroyed := fun l =>
      (hcount _ (fun he => hf (Task.own.inj he).symm) l).trans (h.destroyed l)
    removing := by
      rw [hcount .removeConnectionInLoop nofun]
      exact h.removing
    base := fun l hl => h.base l (pop_mem hq hl)
    own := fun l f hl => h.own l f (pop_mem hq hl)
    closing := h.closing
    callbacks := h.callbacks
    once := h.once
    settled := h.settled
    conn := h.conn }⟩

/-- The poller reports events of the connection. -/
theorem Tracked.polled (h : Tracked v r n) {rv : Revents}
    (hr : System.Reports rv r.conn.channel.interest) :
    Tracked { v with
      callbacks := Function.update v.callbacks r.loop (Channel.handleEventWithGuard rv) } r n := by
  have hsome : r.conn.channel.interest.isSome = true := by
    cases hi : r.conn.channel.interest with
    | none =>
      rw [hi] at hr
      exact hr.elim
    | some e => rfl
  have hn : n ≠ 1 := fun h1 => by
    rw [(h.conn.fresh h1).channel] at hsome
    exact nomatch hsome
  have hstarted := h.started
  have ha := h.conn.alive (by omega)
  have hup : n = 2 := by
    by_contra hne
    exact ha.gone (h.conn.down (by omega)) (ha.channel.interest.mp hsome)
  exact { h with
    callbacks := fun l hl => by
      by_cases hlr : l = r.loop
      · exact ⟨hlr, by omega⟩
      · simp only [Function.update_of_ne hlr] at hl
        exact h.callbacks l hl
    once := by
      simp only [Function.update_self]
      exact System.reports_closing hr
    settled := fun hne => absurd hup hne }

/-- The next callback of the connection is taken out of its loop. -/
theorem Tracked.callback (h : Tracked v r n) {cb : Channel.Callback} {cbs : List Channel.Callback}
    (hq : v.callbacks l = cb :: cbs) : l = r.loop ∧ 2 ≤ n ∧
      (System.closing cb = true → n = 2 ∧ cbs.countP System.closing = 0) ∧
      Tracked { v with callbacks := Function.update v.callbacks l cbs } r n := by
  obtain ⟨rfl, hn⟩ := h.callbacks l (by rw [hq]; exact nofun)
  have hcount : (v.callbacks r.loop).countP System.closing =
      cbs.countP System.closing + if System.closing cb = true then 1 else 0 := by
    rw [hq, List.countP_cons]
  have honce := h.once
  refine ⟨rfl, hn, fun hcl => ?_, { h with
    callbacks := fun l hl => ?_
    once := ?_
    settled := fun hne => ?_ }⟩
  · rw [if_pos hcl] at hcount
    refine ⟨?_, by omega⟩
    by_contra hne
    have := h.settled hne
    omega
  · by_cases hlr : l = r.loop
    · exact ⟨hlr, hn⟩
    · simp only [Function.update_of_ne hlr] at hl
      exact h.callbacks l hl
  · simp only [Function.update_self]
    omega
  · have := h.settled hne
    simp only [Function.update_self]
    omega

end TcpServer

end Muduo.Net
