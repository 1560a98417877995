import Muduo.Examples.BackendServer
import Muduo.Examples.IdOwnership

namespace Muduo.Examples.Multiplexer
open Muduo.Lib Muduo.Net
open BackendServer (Sendable encode)

variable {κ : Type} {m m' : Multiplexer κ} {client : κ} {id : Int}

/-- What the multiplexer has emitted grows by `new`, and so do the bytes it has written. -/
structure Emits (m m' : Multiplexer κ) (new : List (κ × Packet)) : Prop where
  emitted : m'.emitted = m.emitted ++ new
  bytes : m'.toBackend = m.toBackend ++ new.flatMap fun e => encode e.2

theorem Emits.nil (m : Multiplexer κ) : Emits m m [] := ⟨by simp, by simp⟩

/-- A short packet goes out to a backend that is up, in the backend's own framing. -/
theorem sendBackendPacket_emits (m : Multiplexer κ) (client : κ) (id : Int) (type : UInt8)
    {payload : Bytes} (hb : m.backendConnection = true) (hl : payload.length < maxPacketLen) :
    ∃ m', m.sendBackendPacket client id (type :: payload) = .ok m' ∧
      Emits m m' [(client, ⟨id, type, payload⟩)] := by
  have hle : (type :: payload).length ≤ maxPacketLen := hl
  have hsub : Word.sub 32 (type :: payload).length 1 = payload.length := by
    rw [List.length_cons]
    exact Word.sub_of_le 32 (by omega) (by unfold maxPacketLen at hl; omega)
  refine ⟨{ m with
    toBackend := m.toBackend ++ encode ⟨id, type, payload⟩
    emitted := m.emitted ++ [(client, ⟨id, type, payload⟩)] }, ?_, ⟨rfl, by simp⟩⟩
  simp only [sendBackendPacket, check_pos hle, ok_bind, hb, if_true, hsub]
  rfl

theorem sendMessage_emits (m : Multiplexer κ) (client : κ) (id : Int) {buff : Bytes}
    (hb : m.backendConnection = true) (hl : buff.length < maxPacketLen) :
    ∃ m', m.sendMessage client id buff = .ok (m', []) ∧
      Emits m m' (if buff = [] then [] else [(client, ⟨id, ClientType.msg, buff⟩)]) := by
  rw [sendMessage, if_neg (by omega)]
  by_cases hn : buff = []
  · subst hn
    exact ⟨m, rfl, .nil m⟩
  · obtain ⟨m', hm, he⟩ := sendBackendPacket_emits m client id ClientType.msg hb hl
    rw [if_pos (List.length_pos_iff.mpr hn), hm, ok_bind, if_neg hn]
    exact ⟨m', rfl, he⟩

/-- A packet of `MAX_PACKET_LEN` payload bytes is one byte too long for `sendBackendPacket`. -/
theorem sendMessage_long (m : Multiplexer κ) (client : κ) (id : Int) {buff : Bytes}
    (hl : maxPacketLen ≤ buff.length) :
    m.sendMessage client id buff = .error .assertion := by
  have hlong : ¬(ClientType.msg :: buff.take maxPacketLen).length ≤ maxPacketLen := by
    rw [List.length_cons, List.length_take, Nat.min_eq_left hl]
    omega
  rw [sendMessage, if_pos hl, sendBackendPacket, check_neg hlong]
  rfl

theorem upText_ne (id : Int) (peer : Bytes) : upText id peer ≠ [] := by
  simp [upText, snprintf, ascii]

theorem downText_ne (id : Int) (peer : Bytes) : downText id peer ≠ [] := by
  simp [downText, snprintf, ascii]

/-- What a client event emits is sendable, about that client, and carries its id. -/
structure About (client : κ) (context : κ → Option Int) (new : List (κ × Packet)) : Prop where
  sendable : ∀ e ∈ new, Sendable e.2
  client : ∀ e ∈ new, e.1 = client ∧ context client = some e.2.id

theorem About.nil (client : κ) (context : κ → Option Int) : About client context [] :=
  ⟨nofun, nofun⟩

theorem About.singleton {context : κ → Option Int} {type : UInt8} {payload : Bytes}
    (hn : payload ≠ []) (hl : payload.length ≤ maxPacketLen) (hid : id ∈ Ledger.all)
    (hc : context client = some id) : About client context [(client, ⟨id, type, payload⟩)] := by
  refine ⟨fun e he => ?_, fun e he => ?_⟩
  · rw [List.mem_singleton.mp he]
    exact ⟨hn, hl, Ledger.mem_all.mp hid⟩
  · rw [List.mem_singleton.mp he]
    exact ⟨rfl, hc⟩

theorem onClientDown_emits (m : Multiplexer κ) (client : κ) (peer : Bytes)
    (hb : m.backendConnection = true)
    (hids : ∀ id, m.context client = some id → id ∈ Ledger.all) :
    ∃ m' new, m.onClientDown client peer = .ok m' ∧ Emits m m' new ∧
      About client m'.context new ∧ ∀ e ∈ new, e.2.type ≠ ClientType.msg := by
  unfold onClientDown
  cases hc : m.context client with
  | none => exact ⟨m, [], rfl, .nil m, .nil _ _, nofun⟩
  | some id =>
    have hid := hids id hc
    have hl := downText_length id peer
    obtain ⟨m', hm, he⟩ := sendBackendPacket_emits m client id ClientType.disconn hb
      (show (downText id peer).length < maxPacketLen by unfold maxPacketLen; omega)
    have hs := sendBackendPacket_same hm
    simp only [check_pos (Ledger.mem_all.mp hid), ok_bind, sendBackendString, hm]
    refine ⟨_, _, rfl, ⟨he.emitted, he.bytes⟩, ?_, by simp [ClientType.disconn, ClientType.msg]⟩
    exact .singleton (downText_ne id peer) (by unfold maxPacketLen; omega) hid (hs.context ▸ hc)

variable [DecidableEq κ]

theorem onClientUp_emits (m : Multiplexer κ) (client : κ) (peer : Bytes)
    (hb : m.backendConnection = true) (hids : ∀ id ∈ m.availIds, id ∈ Ledger.all) :
    ∃ m' new, m.onClientUp client peer = .ok m' ∧ Emits m m' new ∧
      About client m'.context new ∧ ∀ e ∈ new, e.2.type ≠ ClientType.msg := by
  unfold onClientUp
  cases ha : m.availIds with
  | nil => exact ⟨_, [], rfl, ⟨by simp, by simp⟩, .nil _ _, nofun⟩
  | cons id ids =>
    have hid := hids id (ha ▸ List.mem_cons_self)
    have hpos : ¬id < 0 := by
      have := Ledger.mem_all.mp hid
      omega
    have hl := upText_length id peer
    obtain ⟨m', hm, he⟩ := sendBackendPacket_emits { m with
        availIds := ids, clientConnections := m.clientConnections.insert id client
        context := Function.update m.context client (some id) }
      client id ClientType.conn hb (show (upText id peer).length < maxPacketLen by
        unfold maxPacketLen
        omega)
    have hs := sendBackendPacket_same hm
    simp only [if_neg hpos]
    refine ⟨m', _, hm, ⟨he.emitted, he.bytes⟩, ?_, by simp [ClientType.conn, ClientType.msg]⟩
    refine .singleton (upText_ne id peer) (by unfold maxPacketLen; omega) hid ?_
    rw [hs.context]
    exact Function.update_self ..

namespace System

variable {s t : System κ} {peer : κ → Bytes}

/-- The payloads of the messages about a client among some packets. -/
def messagesOf (client : κ) (packets : List (κ × Packet)) : Bytes :=
  (packets.filter fun e => e.1 = client ∧ e.2.type = ClientType.msg).flatMap fun e => e.2.payload

/-- The bytes a client sends in a sequence of events. -/
def sentBy (client : κ) (es : List (ClientEvent κ)) : Bytes :=
  es.flatMap fun
    | .message c chunk => if c = client then chunk else []
    | _ => []

/-- What a client sends in one event as far as it is relayed: a client that got no id is told
to shut down, and what it sends meanwhile is dropped. -/
def relayedBy (s : System κ) (client : κ) : ClientEvent κ → Bytes
  | .message c chunk => if c = client ∧ (s.mux.context c).isSome then chunk else []
  | _ => []

/-- A client with an id sends a chunk that fits into a packet with its type byte. -/
def Fits (s : System κ) : ClientEvent κ → Prop
  | .message c chunk => (s.mux.context c).isSome → chunk.length < maxPacketLen
  | _ => True

theorem messagesOf_append (client : κ) (ps qs : List (κ × Packet)) :
    messagesOf client (ps ++ qs) = messagesOf client ps ++ messagesOf client qs := by
  simp [messagesOf]

theorem messagesOf_none {client : κ} {ps : List (κ × Packet)}
    (h : ∀ e ∈ ps, e.2.type ≠ ClientType.msg) : messagesOf client ps = [] := by
  have hnil : (ps.filter fun e => e.1 = client ∧ e.2.type = ClientType.msg) = [] :=
    List.filter_eq_nil_iff.mpr fun e he => by simp [h e he]
  rw [messagesOf, hnil, List.flatMap_nil]

/-- The relay invariant while the backend is connected: what was written is the frames of
what was emitted, every packet can be sent and carries its client's id, and no client leaves
anything in its input buffer. -/
structure Relaying (s : System κ) : Prop where
  sane : s.ledger.Sane
  backend : s.mux.backendConnection = true
  input : ∀ c, s.input c = []
  bytes : s.mux.toBackend = s.mux.emitted.flatMap fun e => encode e.2
  sendable : ∀ e ∈ s.mux.emitted, Sendable e.2
  ids : ∀ e ∈ s.mux.emitted, s.mux.context e.1 = some e.2.id

/-- Ids that clients carry stay with them, and the backend stays connected. -/
theorem move_keeps {l l' : Ledger κ} {e : ClientEvent κ} (h : l.Sane)
    (hm : l.Move (.client e) l') :
    (l.backend = true → l'.backend = true) ∧
      ∀ c id, l.context c = some id → l'.context c = some id := by
  cases hm with
  | connect c hc =>
    obtain ⟨_, hx⟩ := h.unseen c hc
    unfold Ledger.connect
    split
    · exact ⟨id, fun _ _ hc' => hc'⟩
    · refine ⟨id, fun c' i hc' => ?_⟩
      have hne : c' ≠ c := by
        rintro rfl
        rw [hx] at hc'
        cases hc'
      simpa [hne] using hc'
  | disconnect c hc =>
    unfold Ledger.disconnect
    split
    · exact ⟨id, fun _ _ hc' => hc'⟩
    · exact ⟨id, fun _ _ hc' => hc'⟩
  | message c chunk => exact ⟨id, fun _ _ hc' => hc'⟩

/-- One event emits packets about its client, whose messages are what the client sent. -/
theorem clientStep_emits (peer : κ → Bytes) {e : ClientEvent κ} (h : s.Relaying) (hf : s.Fits e) :
    ∃ (t : System κ) (c : κ) (new : List (κ × Packet)), s.clientStep peer e = .ok t ∧
      Emits s.mux t.mux new ∧ About c t.mux.context new ∧ (∀ c, t.input c = []) ∧
      ∀ c', messagesOf c' new = s.relayedBy c' e := by
  cases e with
  | up c =>
    obtain ⟨m, new, hm, he, ha, hn⟩ := onClientUp_emits s.mux c (peer c) h.backend h.sane.avail
    simp only [clientStep, hm, ok_bind]
    exact ⟨_, c, new, rfl, he, ha, h.input, fun c' => messagesOf_none hn⟩
  | down c =>
    obtain ⟨m, new, hm, he, ha, hn⟩ :=
      onClientDown_emits s.mux c (peer c) h.backend (h.sane.contexts c)
    simp only [clientStep, hm, ok_bind]
    exact ⟨_, c, new, rfl, he, ha, h.input, fun c' => messagesOf_none hn⟩
  | message c chunk =>
    have hinput : ∀ (rest : Bytes), rest = [] → ∀ c', Function.update s.input c rest c' = [] := by
      rintro rest rfl c'
      by_cases hc : c' = c
      · subst hc
        exact Function.update_self ..
      · rw [Function.update_of_ne hc]
        exact h.input c'
    simp only [clientStep, onClientMessage, h.input c, List.nil_append]
    cases hx : s.mux.context c with
    | none =>
      refine ⟨_, c, [], rfl, .nil _, .nil _ _, hinput [] rfl, fun c' => ?_⟩
      simp [messagesOf, relayedBy, hx]
    | some id =>
      have hl : chunk.length < maxPacketLen := hf (by simp [hx])
      obtain ⟨m, hm, he⟩ := sendMessage_emits s.mux c id h.backend hl
      have hs := sendMessage_same hm
      simp only [hm, ok_bind]
      refine ⟨_, c, _, rfl, he, ?_, hinput [] rfl, fun c' => ?_⟩
      · split
        · exact .nil _ _
        · rename_i hn
          exact .singleton hn (Nat.le_of_lt hl) (h.sane.contexts c id hx) (hs.context ▸ hx)
      · by_cases hn : chunk = []
        · simp [hn, messagesOf, relayedBy]
        · by_cases hc : c = c'
          · simp [hn, hc, messagesOf, relayedBy, hc ▸ hx]
          · simp [hn, hc, messagesOf, relayedBy]

/-- A chunk that does not fit fails the assertion. -/
theorem clientStep_long {e : ClientEvent κ} (h : s.Relaying) (hf : ¬s.Fits e) :
    s.clientStep peer e = .error .assertion := by
  cases e with
  | up c => exact absurd trivial hf
  | down c => exact absurd trivial hf
  | message c chunk =>
    obtain ⟨hsome, hlong⟩ := Classical.not_imp.mp hf
    obtain ⟨id, hx⟩ := Option.isSome_iff_exists.mp hsome
    simp only [clientStep, onClientMessage, h.input c, List.nil_append, hx,
      sendMessage_long s.mux c id (Nat.le_of_not_lt hlong), error_bind]

theorem Relaying.step (peer : κ → Bytes) {e : ClientEvent κ} (h : s.Relaying) (hen : s.clientEnabled e)
    (hf : s.Fits e) :
    ∃ t, s.clientStep peer e = .ok t ∧ t.Relaying ∧
      ∀ c, messagesOf c t.mux.emitted = messagesOf c s.mux.emitted ++ s.relayedBy c e := by
  obtain ⟨t, c, new, ht, he, ha, hi, hm⟩ := clientStep_emits peer h hf
  have hmove := step_moves (e := .client e) h.sane hen ht
  obtain ⟨hb, hx⟩ := move_keeps h.sane hmove
  refine ⟨t, ht, ⟨h.sane.move hmove, hb h.backend, hi, ?_, fun p hp => ?_, fun p hp => ?_⟩,
    fun c' => ?_⟩
  · rw [he.bytes, he.emitted, h.bytes, List.flatMap_append]
  · rw [he.emitted, List.mem_append] at hp
    exact hp.elim (h.sendable p) (ha.sendable p)
  · rw [he.emitted, List.mem_append] at hp
    rcases hp with hp | hp
    · exact hx _ _ (h.ids p hp)
    · obtain ⟨hc, hid⟩ := ha.client p hp
      rw [hc]
      exact hid
  · rw [he.emitted, messagesOf_append, hm c']

/-- A client with an id sends fewer than `MAX_PACKET_LEN` bytes at a time, and one without an id
nothing. -/
def Short (s : System κ) : Event κ → Prop
  | .client (.message c chunk) =>
    if (s.mux.context c).isSome then chunk.length < maxPacketLen else chunk = []
  | _ => True

omit [DecidableEq κ] in
theorem Short.fits {e : ClientEvent κ} (h : s.Short (.client e)) : s.Fits e := by
  cases e with
  | up c => trivial
  | down c => trivial
  | message c chunk =>
    intro hx
    simpa [Short, hx] using h

theorem sentBy_cons (client : κ) (e : ClientEvent κ) (es : List (ClientEvent κ)) :
    sentBy client (e :: es) = sentBy client [e] ++ sentBy client es := by
  simp [sentBy]

theorem Short.relayed {e : ClientEvent κ} (h : s.Short (.client e)) (c : κ) :
    s.relayedBy c e = sentBy c [e] := by
  cases e with
  | up c' => rfl
  | down c' => rfl
  | message c' chunk =>
    by_cases hx : (s.mux.context c').isSome = true
    · simp [relayedBy, sentBy, hx]
    · have hn : chunk = [] := by simpa [Short, hx] using h
      simp [relayedBy, sentBy, hn]

theorem relayed_le (s : System κ) (c : κ) (e : ClientEvent κ) :
    (s.relayedBy c e).length ≤ (sentBy c [e]).length := by
  cases e with
  | up c' => exact Nat.zero_le _
  | down c' => exact Nat.zero_le _
  | message c' chunk =>
    simp only [relayedBy, sentBy, List.flatMap_cons, List.flatMap_nil, List.append_nil]
    split
    · rename_i hc
      rw [if_pos hc.1]
    · exact Nat.zero_le _

/-- While all events are short, everything that clients send is relayed. -/
theorem Relaying.run {es : List (ClientEvent κ)} (h : s.Relaying)
    (hl : (machine peer).Legal Short s (es.map .client)) :
    ∃ t, (machine peer).run s (es.map .client) = .ok t ∧ t.Relaying ∧
      ∀ c, messagesOf c t.mux.emitted = messagesOf c s.mux.emitted ++ sentBy c es := by
  induction es generalizing s with
  | nil => exact ⟨s, rfl, h, fun c => by simp [sentBy]⟩
  | cons e es ih =>
    obtain ⟨hen, hsh, hrest⟩ := hl
    obtain ⟨u, hu, hr, hm⟩ := h.step peer hen hsh.fits
    obtain ⟨t, ht, hrt, hmt⟩ := ih hr (hrest u hu)
    refine ⟨t, ?_, hrt, fun c => ?_⟩
    · have hstep : (machine peer).step s (.client e) = .ok u := hu
      rw [List.map_cons, Machine.run_cons, hstep, ok_bind, ht]
    · rw [hmt c, hm c, Short.relayed hsh c, List.append_assoc, ← sentBy_cons]

/-- A run that gets through relays at most what was sent, and only short events let it relay
all of it. -/
theorem Relaying.run_short {es : List (ClientEvent κ)} (h : s.Relaying)
    (hl : (machine peer).Legal (fun _ _ => True) s (es.map .client))
    (ht : (machine peer).run s (es.map .client) = .ok t) :
    (∀ c, (messagesOf c t.mux.emitted).length ≤
        (messagesOf c s.mux.emitted).length + (sentBy c es).length) ∧
      ((∀ c, (messagesOf c t.mux.emitted).length =
          (messagesOf c s.mux.emitted).length + (sentBy c es).length) →
        (machine peer).Legal Short s (es.map .client)) := by
  induction es generalizing s with
  | nil =>
    cases ht
    exact ⟨fun c => by simp [sentBy], fun _ => trivial⟩
  | cons e es ih =>
    obtain ⟨hen, _, hrest⟩ := hl
    have hstep : (machine peer).step s (.client e) = s.clientStep peer e := rfl
    rw [List.map_cons, Machine.run_cons, hstep] at ht
    by_cases hf : s.Fits e
    · obtain ⟨u, hu, hr, hm⟩ := h.step peer hen hf
      rw [hu, ok_bind] at ht
      obtain ⟨hle, heq⟩ := ih hr (hrest u hu) ht
      have hlen : ∀ c, (messagesOf c u.mux.emitted).length =
          (messagesOf c s.mux.emitted).length + (s.relayedBy c e).length := fun c => by
        rw [hm c, List.length_append]
      have hsent : ∀ c, (sentBy c (e :: es)).length =
          (sentBy c [e]).length + (sentBy c es).length := fun c => by
        rw [sentBy_cons, List.length_append]
      refine ⟨fun c => ?_, fun hall => ⟨hen, ?_, fun u' hu' => ?_⟩⟩
      · have := hle c
        have := hlen c
        have := hsent c
        have := relayed_le s c e
        omega
      · -- nothing of this event was dropped
        cases e with
        | up c => trivial
        | down c => trivial
        | message c chunk =>
          have h1 := hall c
          have h2 := hle c
          have h3 := hlen c
          have h4 := hsent c
          by_cases hx : (s.mux.context c).isSome = true
          · simp only [Short, hx, if_true]
            exact hf hx
          · have hzero : (s.relayedBy c (.message c chunk)).length = 0 := by simp [relayedBy, hx]
            have hsend : (sentBy c [.message c chunk]).length = chunk.length := by simp [sentBy]
            simp only [Short, if_neg hx]
            exact List.length_eq_zero_iff.mp (by omega)
      · rw [hstep, hu] at hu'
        cases hu'
        refine heq fun c => ?_
        have := hall c
        have := hle c
        have := hlen c
        have := hsent c
        have := relayed_le s c e
        omega
    · rw [clientStep_long h hf] at ht
      simp at ht

/-- The moment at which the backend comes up. -/
def opened : System κ :=
  { new with mux := { Multiplexer.new with backendConnection := true, availIds := Ledger.all } }

omit [DecidableEq κ] in
theorem opened_relaying : (opened : System κ).Relaying :=
  ⟨⟨fun _ h => h, nofun, nofun, fun _ _ => ⟨rfl, rfl⟩, nofun⟩, rfl, fun _ => rfl, rfl, nofun, nofun⟩

theorem step_backendUp : (machine peer).step (new : System κ) .backendUp = .ok opened := rfl

/-- What the backend has after receiving some chunks: the packets complete in them. -/
theorem deliver_all (ps : List Packet) (b : BackendServer) :
    ps.foldl BackendServer.receiver.deliver b = ⟨b.received ++ ps, b.shutdowns⟩ := by
  induction ps generalizing b with
  | nil => simp
  | cons p ps ih =>
    rw [List.foldl_cons, ih]
    simp [BackendServer.receiver, BackendServer.onStringMessage]

/-- The multiplexer gets through the client events; however its bytes are cut into chunks, the
backend has every packet with the chunk that holds its last byte, in order, and all of them in the
end; packets carry the id of their client, and the messages about each client are what it sent. -/
def Relays (peer : κ → Bytes) (es : List (ClientEvent κ)) : Prop :=
  ∃ t, (machine peer).run new (.backendUp :: es.map .client) = .ok t ∧
    (∀ chunks : List Bytes, chunks.flatten <+: t.mux.toBackend →
      BackendServer.receiver.feed (⟨[], 0⟩, []) chunks =
        .ok (⟨BackendServer.receiver.completed (t.mux.emitted.map Prod.snd) chunks.flatten.length, 0⟩,
          BackendServer.receiver.remainder (t.mux.emitted.map Prod.snd) chunks.flatten.length)) ∧
    (∀ chunks : List Bytes, chunks.flatten = t.mux.toBackend →
      BackendServer.receiver.feed (⟨[], 0⟩, []) chunks =
        .ok (⟨t.mux.emitted.map Prod.snd, 0⟩, [])) ∧
    (∀ e ∈ t.mux.emitted, t.mux.context e.1 = some e.2.id) ∧
    ∀ c, messagesOf c t.mux.emitted = sentBy c es

omit [DecidableEq κ] in
/-- Chunk by chunk the backend takes apart what a relaying multiplexer wrote. -/
theorem Relaying.receives (h : s.Relaying) {chunks : List Bytes}
    (hc : chunks.flatten <+: s.mux.toBackend) :
    BackendServer.receiver.feed (⟨[], 0⟩, []) chunks =
      .ok (⟨BackendServer.receiver.completed (s.mux.emitted.map Prod.snd) chunks.flatten.length, 0⟩,
        BackendServer.receiver.remainder (s.mux.emitted.map Prod.snd) chunks.flatten.length) := by
  have hbytes : s.mux.toBackend =
      (s.mux.emitted.map Prod.snd).flatMap BackendServer.receiver.encode := by
    rw [h.bytes, List.flatMap_map]
    rfl
  have hg : ∀ p ∈ s.mux.emitted.map Prod.snd, Sendable p := by
    intro p hp
    obtain ⟨e, he, rfl⟩ := List.mem_map.mp hp
    exact h.sendable e he
  rw [BackendServer.receiver_exact.feed_frames hg _ (hbytes ▸ hc), deliver_all]
  rfl

/-- The relay is lossless exactly when no client with an id sends `MAX_PACKET_LEN` bytes or
more at once and no client without one sends anything. -/
theorem relays_iff {es : List (ClientEvent κ)}
    (hl : (machine peer).Legal (fun _ _ => True) new (.backendUp :: es.map .client)) :
    Relays peer es ↔ (machine peer).Legal Short new (.backendUp :: es.map .client) := by
  have hrest := hl.2.2 opened step_backendUp
  have hrun : (machine peer).run new (.backendUp :: es.map .client) =
      (machine peer).run (opened : System κ) (es.map .client) := by
    rw [Machine.run_cons, step_backendUp, ok_bind]
  have hzero : ∀ c : κ, messagesOf c (opened : System κ).mux.emitted = [] := fun _ => rfl
  constructor
  · rintro ⟨t, ht, _, _, _, hsent⟩
    refine ⟨rfl, trivial, fun u hu => ?_⟩
    rw [step_backendUp] at hu
    cases hu
    rw [hrun] at ht
    refine (opened_relaying.run_short hrest ht).2 fun c => ?_
    rw [hsent c, hzero c, List.length_nil, Nat.zero_add]
  · rintro ⟨_, _, hshort⟩
    obtain ⟨t, ht, hr, hm⟩ := opened_relaying.run (hshort opened step_backendUp)
    refine ⟨t, hrun.trans ht, fun chunks hc => hr.receives hc, fun chunks hc => ?_, hr.ids,
      fun c => by rw [hm c, hzero c, List.nil_append]⟩
    have hall := hr.receives (hc ▸ List.prefix_refl _ : chunks.flatten <+: t.mux.toBackend)
    have hbytes : chunks.flatten =
        (t.mux.emitted.map Prod.snd).flatMap BackendServer.receiver.encode := by
      rw [hc, hr.bytes, List.flatMap_map]
      rfl
    rwa [hbytes, Receiver.completed_all, Receiver.remainder_all] at hall

/-- A client that says something and leaves. -/
def sampleTalk : List (ClientEvent Unit) := [.up (), .message () [104, 105], .down ()]

theorem relays_iff_sample :
    (machine samplePeer).Legal (fun _ _ => True) new (.backendUp :: sampleTalk.map .client) ∧
      (Relays samplePeer sampleTalk ↔
        (machine samplePeer).Legal Short new (.backendUp :: sampleTalk.map .client)) := by
  have hl : (machine samplePeer).Legal (fun _ _ => True) new
      (.backendUp :: sampleTalk.map .client) := by
    decide +kernel
  exact ⟨hl, relays_iff hl⟩

/-- A client sends 512 bytes at once. -/
def longTalk : List (ClientEvent Unit) := [.up (), .message () (List.replicate maxPacketLen 0)]

theorem long_chunk_asserts :
    ¬∀ es : List (ClientEvent Unit),
      (machine samplePeer).Legal (fun _ _ => True) new (.backendUp :: es.map .client) →
        Relays samplePeer es := by
  intro h
  have hl : (machine samplePeer).Legal (fun _ _ => True) new
      (.backendUp :: longTalk.map .client) := by
    decide +kernel
  obtain ⟨t, ht, _⟩ := h longTalk hl
  have hf : ((machine samplePeer).run new (.backendUp :: longTalk.map .client)).map (fun _ => ()) =
      .error .assertion := by
    decide +kernel
  rw [ht] at hf
  cases hf

end System

end Muduo.Examples.Multiplexer
