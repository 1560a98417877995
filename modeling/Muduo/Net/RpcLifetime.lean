import Muduo.Net.Closing
import Muduo.Net.RpcServer
import Muduo.Net.Steady

namespace Muduo.Net.Rpc
open Muduo.Lib

namespace ServerChannel

variable {M : Type} {pb : Protobuf M} {codec : ProtobufCodecLite RpcMessage}
  {s : ServerChannel M} {kernel : Kernel} {message : RpcMessage} {w : WriteResult}

/-- The channel goes with the DOWN callback of a connection that has been reading until then. -/
structure Sound (s : ServerChannel M) : Prop where
  orderly : s.sys.Orderly
  reading : s.sys.conn.reading = true
  down : s.sys.conn.state = .kDisconnected → 0 < s.sys.conn.log.downs
  destroyed : s.destroyed = true ↔ 0 < s.sys.conn.log.downs

/-- A pointer to the channel may be followed. -/
structure Live (s : ServerChannel M) : Prop extends Sound s where
  up : s.sys.conn.state ≠ .kDisconnected

theorem Live.deref (h : s.Live) : s.deref = .ok s.channel := by
  have hfresh := (h.orderly.conn.fresh h.up).2.2
  have hkept : ¬s.destroyed = true := fun hd => by
    have := h.destroyed.mp hd
    omega
  rw [ServerChannel.deref, if_neg hkept]

theorem Sound.deref_down (h : s.Sound) (hst : s.sys.conn.state = .kDisconnected) :
    s.deref = .error .useAfterFree := by
  rw [ServerChannel.deref, if_pos (h.destroyed.mpr (h.down hst))]

/-- Any fault but the use of a destroyed channel. -/
def Unrelated (f : Fault) : Prop := f ≠ .useAfterFree

theorem Sound.withChannel (h : s.Sound) (channel : RpcChannel M) : Sound { s with channel } :=
  ⟨h.orderly, h.reading, h.down, h.destroyed⟩

theorem Live.withChannel (h : s.Live) (channel : RpcChannel M) : Live { s with channel } :=
  ⟨h.toSound.withChannel channel, h.up⟩

/-- The loop runs the next functor, or stops in `Channel::remove` if the server has been destroyed
with the connection half closed. -/
theorem Sound.keeps_functor (h : s.Sound) (w : WriteResult) :
    s.sys.Keeps (.functor w) ∨ s.sys.step (.functor w) = .error .assertion := by
  change System.Destroys _ _ ∨ _
  simp only [Net.System.step]
  cases hfs : s.sys.conn.pendingFunctors with
  | nil => exact .inl trivial
  | cons f fs =>
    cases f with
    | forceCloseInLoop => exact .inl (h.orderly.enabled h.reading)
    | connectDestroyed =>
      by_cases hst : s.sys.conn.state = .kDisconnecting
      · have he := h.orderly.enabled h.reading (by simp [hst])
        refine .inr ?_
        simp [Net.System.functorStep, hst, TcpConnection.removeChannel, Channel.remove_enabled he]
      · refine .inl ⟨fun hc => h.orderly.enabled h.reading (by simp [hc]), fun hc => absurd hc hst⟩
    | sendInLoop message => exact .inl trivial
    | writeCompleteCallback => exact .inl trivial
    | highWaterMarkCallback len => exact .inl trivial

/-- A step of the connection, and its connection callback. -/
theorem Sound.netStep (h : s.Sound) {e : Net.Event} (he : s.sys.enabled e) (hk : s.sys.Keeps e)
    (hr : ¬System.TouchesReading e) :
    Yields (fun t => t.Sound ∧ s.sys.step e = .ok t.sys) Unrelated (s.netStep e) := by
  have horderly := System.step_orderly h.orderly he hk
  unfold ServerChannel.netStep
  cases hok : s.sys.step e with
  | error f =>
    rw [hok] at horderly
    rw [error_bind, yields_error]
    intro hfree
    cases hfree
    simp [System.Exhausts] at horderly
  | ok sys =>
    have ho := horderly.of_ok hok
    obtain ⟨hreading, hdowns, hdown⟩ := System.step_steady h.orderly.conn.toSound he hr hok
    have hlast : sys.conn.state = .kDisconnected → 0 < sys.conn.log.downs := by
      intro hst
      rcases hdown hst with hbefore | hnow
      · have := h.down hbefore
        omega
      · omega
    rw [ok_bind]
    dsimp only
    split
    · rename_i hgrown
      have hpos : 0 < sys.conn.log.downs := by omega
      exact ⟨⟨ho, hreading.trans h.reading, hlast, iff_of_true rfl hpos⟩, rfl⟩
    · rename_i hsame
      have heq : sys.conn.log.downs = s.sys.conn.log.downs := by omega
      exact ⟨⟨ho, hreading.trans h.reading, hlast, h.destroyed.trans (by rw [heq])⟩, rfl⟩

/-- The thread of the loop sends, shuts down or consumes input; the connection stays up. -/
theorem Live.call (h : s.Live) {k : Net.Call} (he : s.sys.CallAllowed k)
    (hr : ¬System.TouchesReading (.call k)) :
    Yields (fun t => t.Live ∧ System.callStep s.sys.conn k = .ok t.sys.conn) Unrelated
      (s.netStep (.call k)) := by
  have hk : s.sys.Keeps (.call k) := by
    cases k with
    | startRead => exact absurd trivial hr
    | stopRead => exact absurd trivial hr
    | send message w => trivial
    | shutdown => trivial
    | forceClose => trivial
    | forceCloseWithDelay => trivial
    | retrieveInput len => trivial
  refine (h.netStep (e := .call k) he hk hr).mono fun t ht => ?_
  obtain ⟨hsound, hstep⟩ := ht
  obtain ⟨c, hc, heq⟩ := System.call_ok hstep
  have hcalm := ((System.call_tidy h.orderly.conn he hk).of_ok hc).2
  have hconn : t.sys.conn = c := by rw [heq]
  exact ⟨⟨hsound, fun hst => h.up (hcalm.up (hconn ▸ hst))⟩, hconn ▸ hc⟩

theorem fill_yields (codec : ProtobufCodecLite RpcMessage) (message : RpcMessage) :
    Yields (fun buf => buf.length ≤ maxSize) Unrelated (fill codec message) := by
  rw [fill, ProtobufCodecLite.fillEmptyBuffer_eq, ok_bind]
  split
  · rename_i hfits
    exact hfits
  · nofun

/-- Sending leaves the input of the connection to be consumed. -/
theorem Live.send (h : s.Live) (kernel : Kernel) (message : RpcMessage) :
    Yields (fun t => t.Live ∧ t.sys.conn.inputBuffer = s.sys.conn.inputBuffer) Unrelated
      (s.send codec kernel message) := by
  refine (fill_yields codec message).bind fun buf hbuf => ?_
  refine (h.call (k := .send buf (kernel.write buf)) ⟨hbuf, kernel.write_taken buf⟩ id).mono
    fun t ht => ⟨ht.1, ?_⟩
  have hsend := ht.2
  simp only [System.callStep, TcpConnection.send] at hsend
  split at hsend
  · exact (TcpConnection.sendInLoop_input _ _ _).of_ok hsend
  · rw [← Except.ok.inj hsend]

theorem Live.otherSend (h : s.Live) (message : RpcMessage) :
    Yields Live Unrelated (s.otherSend codec message) := by
  refine (fill_yields codec message).bind fun buf hbuf => ?_
  split
  · rename_i hst
    refine (h.netStep (e := .otherSend buf) ⟨hbuf, hst⟩ trivial id).mono fun t ht => ?_
    obtain ⟨hsound, hstep⟩ := ht
    refine ⟨hsound, ?_⟩
    rw [← Except.ok.inj hstep]
    exact h.up
  · exact h

theorem Live.sends (h : s.Live) (kernel : Kernel) (sent : List RpcMessage) :
    Yields (fun t => t.Live ∧ t.sys.conn.inputBuffer = s.sys.conn.inputBuffer) Unrelated
      (sent.foldlM (fun s message => s.send codec kernel message) s) := by
  induction sent generalizing s with
  | nil => exact ⟨h, rfl⟩
  | cons message sent ih =>
    rw [List.foldlM_cons]
    refine (h.send kernel message).bind fun t ht => ?_
    exact (ih ht.1).mono fun u hu => ⟨hu.1, hu.2.trans ht.2⟩

theorem channel_onRpcMessage (pb : Protobuf M) (channel : RpcChannel M) (message : RpcMessage) :
    Yields (fun _ => True) Unrelated (channel.onRpcMessage pb message) := by
  unfold RpcChannel.onRpcMessage
  split
  · by_cases hset : message.response.isSome ∨ message.error.isSome
    · rw [check_pos hset, ok_bind]
      trivial
    · rw [check_neg hset, error_bind]
      nofun
  · trivial
  · trivial

theorem Live.onRpcMessage (h : s.Live) (kernel : Kernel) (message : RpcMessage)
    (answer : Option M) :
    Yields (fun t => t.Live ∧ t.sys.conn.inputBuffer = s.sys.conn.inputBuffer) Unrelated
      (s.onRpcMessage pb codec kernel message answer) := by
  rw [ServerChannel.onRpcMessage, h.deref, ok_bind]
  refine (channel_onRpcMessage pb s.channel message).bind fun r _ => ?_
  exact (h.withChannel _).sends kernel _

theorem Live.onRpcMessages (h : s.Live) (kernel : Kernel) (messages : List RpcMessage)
    (answers : List (Option M)) :
    Yields (fun t => t.Live ∧ t.sys.conn.inputBuffer = s.sys.conn.inputBuffer) Unrelated
      (onRpcMessages pb codec kernel messages answers s) := by
  induction messages generalizing s answers with
  | nil => exact ⟨h, rfl⟩
  | cons message messages ih =>
    refine (h.onRpcMessage kernel message _).bind fun t ht => ?_
    exact (ih ht.1 answers.tail).mono fun u hu => ⟨hu.1, hu.2.trans ht.2⟩

/-- The codec refuses what it cannot read and does not fault. -/
theorem codec_onMessage (codec : ProtobufCodecLite RpcMessage) (received : Received RpcMessage)
    (buf : Bytes) : ∃ r, codec.onMessage received buf = .ok r := by
  fun_induction codec.onMessage received buf with
  | case1 => exact ⟨_, rfl⟩
  | case2 received buf len hmin hrange hall hraw ih => exact ih
  | case3 received buf len hmin hrange hall hraw message hparse ih => exact ih
  | case4 => exact ⟨_, rfl⟩
  | case5 => exact ⟨_, rfl⟩
  | case6 => exact ⟨_, rfl⟩

theorem Live.onCodecError (h : s.Live) : Yields Sound Unrelated s.onCodecError := by
  unfold ServerChannel.onCodecError
  split
  · exact (h.call (k := .shutdown) trivial id).mono fun t ht => ht.1.toSound
  · exact h.toSound

/-- The message callback of a connection that is up finds the channel. -/
theorem Live.onMessage (h : s.Live) (kernel : Kernel) (answers : List (Option M)) :
    Yields Sound Unrelated (s.onMessage pb codec kernel answers) := by
  have hvalid := h.orderly.conn.input
  obtain ⟨⟨received, rest⟩, hcodec⟩ :=
    codec_onMessage codec ⟨[], []⟩ s.sys.conn.inputBuffer.contents
  simp only [ServerChannel.onMessage, h.deref, Buffer.load_contents hvalid, hcodec, ok_bind]
  refine (h.onRpcMessages kernel received.messages answers).bind fun t ht => ?_
  obtain ⟨hlive, hinput⟩ := ht
  have hallowed : s.sys.conn.inputBuffer.contents.length - rest.length ≤
      t.sys.conn.inputBuffer.readableBytes := by
    rw [hinput, hvalid.readable_length]
    exact Nat.sub_le _ _
  refine (hlive.call (k := .retrieveInput _) hallowed id).bind fun u hu => ?_
  split
  · exact hu.1.toSound
  · exact hu.1.onCodecError

theorem Sound.handle (h : s.Sound) {read : Option Bytes} (kernel : Kernel)
    (answers : List (Option M)) (he : s.sys.enabled (.handle read w)) :
    Yields Sound Unrelated (s.handle pb codec read w kernel answers) := by
  have hk := h.orderly.keeps_handle h.reading read w
  refine (h.netStep (e := .handle read w) he hk id).bind fun t ht => ?_
  obtain ⟨hsound, hstep⟩ := ht
  split
  · rename_i x xs hcallback
    obtain ⟨callback, callbacks, hcb⟩ := List.exists_cons_of_ne_nil he.1
    rw [hcb, List.head?_cons, Option.some.injEq] at hcallback
    subst hcallback
    obtain ⟨c, hc, heq⟩ := System.handle_cons hcb hstep
    obtain ⟨inputBuffer, -, hc⟩ := bind_ok hc
    -- there is data, so that the callback has not closed the connection
    have hconn : c = { s.sys.conn with inputBuffer } := (Except.ok.inj hc).symm
    refine Live.onMessage ⟨hsound, ?_⟩ kernel answers
    rw [heq, hconn]
    exact h.orderly.up hcb rfl
  · exact hsound

/-- The closure of a service finds the channel while the connection is up. -/
theorem Live.doneCallback (h : s.Live) (runner : Runner) (id : Nat) (response : M) :
    Yields Sound Unrelated (s.doneCallback pb codec runner id response) := by
  rw [ServerChannel.doneCallback, h.deref, ok_bind]
  dsimp only
  split
  · exact ((h.withChannel _).send _ _).mono fun t ht => ht.1.toSound
  · exact ((h.withChannel _).otherSend _).mono fun t ht => ht.toSound
  · exact (h.withChannel _).toSound

/-- A closure runs before its connection has gone down. -/
def Timely (s : ServerChannel M) : Event M → Prop
  | .doneCallback _ _ _ => s.sys.conn.state ≠ .kDisconnected
  | _ => True

instance (s : ServerChannel M) : ∀ e, Decidable (s.Timely e)
  | .doneCallback _ _ _ => inferInstanceAs (Decidable (_ ≠ _))
  | .poll _ | .handle _ _ _ _ | .functor _ | .otherQueue _ | .queueConnectDestroyed
  | .finishConnectDestroyed => isTrue trivial

theorem step_sound (h : s.Sound) {e : Event M} (he : s.enabled e) (ht : s.Timely e) :
    Yields Sound Unrelated (s.step pb codec e) := by
  cases e with
  | poll r => exact (h.netStep (e := .poll r) he trivial id).mono fun t ht => ht.1
  | handle read w kernel answers => exact h.handle kernel answers he
  | functor w =>
    rcases h.keeps_functor w with hk | hstop
    · exact (h.netStep (e := .functor w) he hk id).mono fun t ht => ht.1
    · change Yields _ _ (s.netStep (.functor w))
      rw [netStep, hstop, error_bind]
      nofun
  | otherQueue message =>
    exact (h.netStep (e := .otherQueue message) he trivial id).mono fun t ht => ht.1
  | queueConnectDestroyed =>
    exact (h.netStep (e := .queueConnectDestroyed) he trivial id).mono fun t ht => ht.1
  | finishConnectDestroyed =>
    exact (h.netStep (e := .finishConnectDestroyed) he trivial id).mono fun t ht => ht.1
  | doneCallback runner id response => exact Live.doneCallback ⟨h, ht⟩ runner id response

theorem Sound.late (h : s.Sound) {e : Event M} (ht : ¬s.Timely e) :
    s.step pb codec e = .error .useAfterFree := by
  cases e with
  | doneCallback runner id response =>
    have hdown : s.sys.conn.state = .kDisconnected := not_not.mp ht
    change s.doneCallback pb codec runner id response = _
    rw [ServerChannel.doneCallback, h.deref_down hdown, error_bind]
  | poll r => exact absurd trivial ht
  | handle read w kernel answers => exact absurd trivial ht
  | functor w => exact absurd trivial ht
  | otherQueue message => exact absurd trivial ht
  | queueConnectDestroyed => exact absurd trivial ht
  | finishConnectDestroyed => exact absurd trivial ht

theorem onConnectionUp_sound {sys : Net.System} (h : sys.Established) (content : Object → M)
    (services : String → Option (Service M)) : (onConnectionUp sys content services).Sound := by
  have horderly := System.established_orderly h
  obtain ⟨writeComplete, highWater, mark, rfl⟩ := TcpConnection.established_eq h
  exact ⟨horderly, rfl, nofun, nofun, nofun⟩

/-- A server never follows a pointer to a destroyed channel exactly when every closure of its
services runs before its connection has gone down. -/
theorem channel_outlives_iff {sys : Net.System} (h : sys.Established) (content : Object → M)
    (services : String → Option (Service M)) {es : List (Event M)}
    (hl : (machine pb codec).Legal (fun _ _ => True) (onConnectionUp sys content services) es) :
    (machine pb codec).Legal Timely (onConnectionUp sys content services) es ↔
      ∀ fs, fs <+: es → Yields (fun _ => True) (· ≠ Fault.useAfterFree)
        ((machine pb codec).run (onConnectionUp sys content services) fs) :=
  Machine.Legal.iff_yields (I := Sound) (fun _ _ hs he ht => step_sound hs he ht)
    (fun _ _ hs _ ht => ⟨_, hs.late ht, fun hne => hne rfl⟩) (fun _ _ => trivial)
    (onConnectionUp_sound h content services) hl

/-- The empty message as protobuf has it. -/
def sampleProtobuf : Protobuf Unit := ⟨fun _ => [], fun _ bytes => ((), bytes = [])⟩

def sampleRequest : RpcMessage :=
  { type := .request, id := 1, service := some "s", method := some "m", request := some [] }

/-- The fields 1 to 5, as protobuf serializes them. -/
def sampleWire : Bytes :=
  [8, 1, 17, 1, 0, 0, 0, 0, 0, 0, 0, 26, 1, 115, 34, 1, 109, 42, 0]

/-- The response is serialized with its fields 1, 2 and 6. -/
def sampleRuntime : ProtobufRuntime RpcMessage where
  serializeToArray message :=
    if message = sampleRequest then sampleWire else [8, 2, 17, 1, 0, 0, 0, 0, 0, 0, 0, 50, 0]
  parseFromArray bytes := if bytes = sampleWire then some sampleRequest else none
  adler32 bytes :=
    let sums := bytes.foldl (fun (p : Nat × Nat) byte =>
      ((p.1 + byte.toNat) % 65521, (p.2 + (p.1 + byte.toNat) % 65521) % 65521)) (1, 0)
    sums.2 * 2 ^ 16 + sums.1

/-- With the tag `RPC0`. -/
def sampleCodec : ProtobufCodecLite RpcMessage := ⟨sampleRuntime, [82, 80, 67, 48], none⟩

def sampleServices (service : String) : Option (Service Unit) :=
  if service = "s" then some fun method => if method = "m" then some ⟨(), ()⟩ else none else none

def sampleUp : ServerChannel Unit :=
  onConnectionUp TcpConnection.sampleStart (fun _ => ()) sampleServices

def sampleKernel : Kernel := ⟨fun buf => .wrote buf.length⟩

/-- A request arrives; its service keeps the closure. -/
def sampleArrival : List (Event Unit) :=
  [.poll ⟨true, false, false, false, false, false, false⟩,
    .handle (some (sampleCodec.frame sampleRequest)) (.wrote 0) sampleKernel [none]]

/-- The client hangs up. -/
def sampleHangUp : List (Event Unit) :=
  [.poll ⟨false, false, false, true, false, false, false⟩,
    .handle none (.wrote 0) sampleKernel []]

/-- The closure runs in time. -/
def sampleTimely : List (Event Unit) :=
  sampleArrival ++ .doneCallback (.loop sampleKernel) 1 () :: sampleHangUp

/-- The closure runs when the client is gone. -/
def sampleLate : List (Event Unit) :=
  sampleArrival ++ sampleHangUp ++ [.doneCallback .other 1 ()]

theorem channel_outlives_iff_sample :
    (machine sampleProtobuf sampleCodec).Legal (fun _ _ => True) sampleUp sampleTimely ∧
      ((machine sampleProtobuf sampleCodec).Legal Timely sampleUp sampleTimely ↔
        ∀ fs, fs <+: sampleTimely → Yields (fun _ => True) (· ≠ Fault.useAfterFree)
          ((machine sampleProtobuf sampleCodec).run sampleUp fs)) := by
  have hl : (machine sampleProtobuf sampleCodec).Legal (fun _ _ => True) sampleUp sampleTimely := by
    decide +kernel
  exact ⟨hl, channel_outlives_iff TcpConnection.sampleStart_established _ _ hl⟩

example : (machine sampleProtobuf sampleCodec).Legal Timely sampleUp sampleTimely := by
  decide +kernel

theorem late_closure_faults :
    ∃ es, (machine sampleProtobuf sampleCodec).Legal (fun _ _ => True) sampleUp es ∧
      ((machine sampleProtobuf sampleCodec).run sampleUp es).map (fun _ => ()) =
        .error .useAfterFree := by
  refine ⟨sampleLate, ?_, ?_⟩
  · decide +kernel
  · decide +kernel

theorem closure_outlives_channel :
    ¬∀ (pb : Protobuf Unit) (codec : ProtobufCodecLite RpcMessage) (sys : Net.System)
      (content : Object → Unit) (services : String → Option (Service Unit))
      (es : List (Event Unit)), sys.Established →
      (machine pb codec).Legal (fun _ _ => True) (onConnectionUp sys content services) es →
      Yields (fun _ => True) (· ≠ Fault.useAfterFree)
        ((machine pb codec).run (onConnectionUp sys content services) es) := by
  intro hall
  obtain ⟨es, hl, hrun⟩ := late_closure_faults
  have hyields := hall sampleProtobuf sampleCodec TcpConnection.sampleStart (fun _ => ())
    sampleServices es TcpConnection.sampleStart_established hl
  change Yields _ _ ((machine sampleProtobuf sampleCodec).run sampleUp es) at hyields
  cases hres : (machine sampleProtobuf sampleCodec).run sampleUp es with
  | ok t =>
    rw [hres] at hrun
    cases hrun
  | error f =>
    rw [hres] at hyields hrun
    cases hrun
    exact hyields rfl

end ServerChannel

end Muduo.Net.Rpc
