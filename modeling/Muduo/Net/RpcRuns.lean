import Muduo.Net.RpcMatching

namespace Muduo.Net.Rpc
open Muduo.Lib

variable {M : Type} {pb : Protobuf M} {content : Side → Object → M} {s : System M} {x : Side}

@[simp] theorem Side.other_other (x : Side) : x.other.other = x := by cases x <;> rfl

theorem Side.other_ne (x : Side) : x.other ≠ x := by cases x <;> nofun

theorem Side.eq_or_other (x y : Side) : y = x ∨ y = x.other := by
  cases x <;> cases y <;> simp [Side.other]

/-- An injected message that is neither an answer nor an error. -/
def Event.Malformed : Event M → Prop
  | .inject _ message => message.response = none ∧ message.error = none
  | _ => False

def requestsOf (ms : List RpcMessage) : List RpcMessage := ms.filter (·.type = .request)

def responsesOf (ms : List RpcMessage) : List RpcMessage := ms.filter (·.type = .response)

/-- The calls of `x`, with what its peer did for them. -/
abbrev LinkedAt (pb : Protobuf M) (s : System M) (x : Side) : Prop :=
  Linked pb (s.channel x).toCaller (s.channel x.other).toCallee (requestsOf (s.inFlight x.other))
    (responsesOf (s.inFlight x))

structure Coherent (pb : Protobuf M) (content : Side → Object → M) (s : System M) : Prop where
  sound : ∀ x, Caller.Sound pb (content x) (s.channel x).toCaller
  linked : ∀ x, LinkedAt pb s x

theorem requestsOf_append (ms ns : List RpcMessage) :
    requestsOf (ms ++ ns) = requestsOf ms ++ requestsOf ns := List.filter_append ..

theorem responsesOf_append (ms ns : List RpcMessage) :
    responsesOf (ms ++ ns) = responsesOf ms ++ responsesOf ns := List.filter_append ..

theorem requestsOf_cons (message : RpcMessage) (ms : List RpcMessage) :
    requestsOf (message :: ms) =
      if message.type = .request then message :: requestsOf ms else requestsOf ms := by
  simp only [requestsOf, List.filter_cons, decide_eq_true_eq]

theorem responsesOf_cons (message : RpcMessage) (ms : List RpcMessage) :
    responsesOf (message :: ms) =
      if message.type = .response then message :: responsesOf ms else responsesOf ms := by
  simp only [responsesOf, List.filter_cons, decide_eq_true_eq]

theorem requestsOf_responses {ms : List RpcMessage} (h : ∀ m ∈ ms, m.type = .response) :
    requestsOf ms = [] ∧ responsesOf ms = ms := by
  refine ⟨List.filter_eq_nil_iff.mpr fun m hm => ?_, List.filter_eq_self.mpr fun m hm => ?_⟩ <;>
    simp [h m hm]

theorem new_coherent (services : Side → Option (String → Option (Service M))) :
    Coherent pb content (.new content services) where
  sound := fun _ => {
    ids_le := fun _ hp => nomatch hp
    ids := fun _ hp => nomatch hp
    objects := fun _ hp => nomatch hp
    closures := fun _ hp => nomatch hp
    since := fun _ hp => nomatch hp
    outstanding := fun _ _ => iff_of_false nofun fun ⟨_, hp, _⟩ => nomatch hp
    answering := fun _ ha => nomatch ha
    untouched := fun _ _ => rfl
    holds := fun _ hp => nomatch hp
    ran := fun _ hr => nomatch hr
    ran_all := fun _ hp => nomatch hp
    ran_once := .nil
    freed := fun _ ho => nomatch ho
    freed_all := fun _ hp => nomatch hp
    freed_once := .nil }
  linked := fun _ => {
    sent := fun _ hm => nomatch hm
    once := .nil
    pending := fun _ hq => nomatch hq
    handled := .nil
    replies := fun _ hm => nomatch hm
    flight := fun _ hm => nomatch hm
    answered := fun _ hp => nomatch hp }

/-- A step of `x` concerns its own calls and those of its peer. -/
theorem Coherent.put {ch : RpcChannel M} {sent : List RpcMessage}
    (hs : Caller.Sound pb (content x) ch.toCaller)
    (hs' : Caller.Sound pb (content x.other) (s.channel x.other).toCaller)
    (hown : Linked pb ch.toCaller (s.channel x.other).toCallee
      (requestsOf (s.inFlight x.other) ++ requestsOf sent) (responsesOf (s.inFlight x)))
    (hpeer : Linked pb (s.channel x.other).toCaller ch.toCallee (requestsOf (s.inFlight x))
      (responsesOf (s.inFlight x.other) ++ responsesOf sent)) :
    Coherent pb content (s.put x ch sent) := by
  have hne := x.other_ne
  have hself : (s.put x ch sent).channel x = ch := Function.update_self ..
  have hother : (s.put x ch sent).channel x.other = s.channel x.other :=
    Function.update_of_ne hne ..
  have hin : (s.put x ch sent).inFlight x = s.inFlight x := Function.update_of_ne hne.symm ..
  have hout : (s.put x ch sent).inFlight x.other = s.inFlight x.other ++ sent :=
    Function.update_self ..
  refine ⟨fun y => ?_, fun y => ?_⟩
  · rcases x.eq_or_other y with rfl | rfl
    · rw [hself]
      exact hs
    · rw [hother]
      exact hs'
  · unfold LinkedAt
    rcases x.eq_or_other y with rfl | rfl
    · rw [hself, hother, hin, hout, requestsOf_append]
      exact hown
    · rw [Side.other_other, hself, hother, hin, hout, responsesOf_append]
      exact hpeer

theorem Coherent.peer (h : Coherent pb content s) :
    Linked pb (s.channel x.other).toCaller (s.channel x).toCallee (requestsOf (s.inFlight x))
      (responsesOf (s.inFlight x.other)) := by
  have := h.linked x.other
  unfold LinkedAt at this
  rwa [Side.other_other] at this

/-- A step of the calls of `x` that sends only REQUESTs. -/
theorem Coherent.putCaller (h : Coherent pb content s) {c : Caller M} {sent : List RpcMessage}
    (hsent : ∀ m ∈ sent, m.type = .request) (hs : Caller.Sound pb (content x) c)
    (hl : Linked pb c (s.channel x.other).toCallee (requestsOf (s.inFlight x.other) ++ sent)
      (responsesOf (s.inFlight x))) : Coherent pb content (s.putCaller x c sent) := by
  have hrequests : requestsOf sent = sent := List.filter_eq_self.mpr fun m hm => by simp [hsent m hm]
  have hresponses : responsesOf sent = [] :=
    List.filter_eq_nil_iff.mpr fun m hm => by simp [hsent m hm]
  refine Coherent.put hs (h.sound x.other) (by rw [hrequests]; exact hl) ?_
  rw [hresponses, List.append_nil]
  exact h.peer

/-- A step of `x` for the calls of its peer, which sends only RESPONSEs. -/
theorem Coherent.putCallee {c : Callee M} {sent : List RpcMessage}
    (hsent : ∀ m ∈ sent, m.type = .response)
    (hs : ∀ y, Caller.Sound pb (content y) (s.channel y).toCaller) (hown : LinkedAt pb s x)
    (hl : Linked pb (s.channel x.other).toCaller c (requestsOf (s.inFlight x))
      (responsesOf (s.inFlight x.other) ++ sent)) : Coherent pb content (s.putCallee x c sent) := by
  obtain ⟨hrequests, hresponses⟩ := requestsOf_responses hsent
  refine Coherent.put (hs x) (hs x.other) ?_ (by rw [hresponses]; exact hl)
  rw [hrequests, List.append_nil]
  exact hown

/-- A RESPONSE is received that the peer sent, or one with an unknown id. -/
theorem Coherent.response (h : Coherent pb content s) {message : RpcMessage}
    (htype : message.type = .response) (hidle : (s.channel x).answering = none)
    (hm : message ∈ (s.channel x.other).responses ∨ (s.channel x).outstandings message.id = none)
    (hanswers : message.response.isSome ∨ message.error.isSome) :
    Yields (Coherent pb content) (fun _ => False) (s.receive pb x message) := by
  have hreceive : s.receive pb x message =
      .ok (s.putCaller x ((s.channel x).takeEntry message) []) := by
    simp only [System.receive, RpcChannel.onRpcMessage, htype, check_pos hanswers, ok_bind]
    rfl
  rw [hreceive]
  refine h.putCaller nofun ((h.sound x).takeEntry hidle message) ?_
  rw [List.append_nil]
  exact (h.linked x).takeEntry (h.sound x) hm

/-- The loop of `x` takes the first message that is under way to it. -/
theorem Coherent.deliver (h : Coherent pb content s) {message : RpcMessage}
    {rest : List RpcMessage} (hin : s.inFlight x = message :: rest)
    (hidle : (s.channel x).answering = none) :
    Yields (Coherent pb content) (fun _ => False)
      (System.receive pb { s with inFlight := Function.update s.inFlight x rest } x message) := by
  have hself : Function.update s.inFlight x rest x = rest := Function.update_self ..
  have hother : Function.update s.inFlight x rest x.other = s.inFlight x.other :=
    Function.update_of_ne x.other_ne ..
  have hown := h.linked x
  have hpeer := h.peer (x := x)
  unfold LinkedAt at hown
  rw [hin] at hown hpeer
  rw [responsesOf_cons] at hown
  rw [requestsOf_cons] at hpeer
  cases htype : message.type with
  | request =>
    simp only [htype, reduceCtorEq, if_false, if_true] at hown hpeer
    have hreceive : System.receive pb { s with inFlight := Function.update s.inFlight x rest } x
        message = .ok (System.putCallee { s with inFlight := Function.update s.inFlight x rest } x
          ((s.channel x).toCallee.onRequest pb message).1
          ((s.channel x).toCallee.onRequest pb message).2) := by
      simp only [System.receive, RpcChannel.onRpcMessage, htype, ok_bind]
      rfl
    rw [hreceive]
    refine Coherent.putCallee (onRequest_responses message) h.sound ?_ ?_
    · unfold LinkedAt
      simp only [hself, hother]
      exact hown
    · simp only [hself, hother]
      exact hpeer.onRequest
  | response =>
    simp only [htype, reduceCtorEq, if_false, if_true] at hown hpeer
    have hm : message ∈ (s.channel x.other).responses := hown.flight message List.mem_cons_self
    obtain ⟨q, -, hreply⟩ := hown.replies message hm
    have hless : Coherent pb content { s with inFlight := Function.update s.inFlight x rest } := by
      refine ⟨h.sound, fun y => ?_⟩
      unfold LinkedAt
      rcases x.eq_or_other y with rfl | rfl
      · simp only [hself, hother]
        exact { hown with flight := fun m hm => hown.flight m (List.mem_cons_of_mem _ hm) }
      · simp only [Side.other_other, hself, hother]
        exact hpeer
    exact hless.response htype hidle (.inl hm) hreply.answers
  | error =>
    simp only [htype, reduceCtorEq, if_false] at hown hpeer
    have hreceive : System.receive pb { s with inFlight := Function.update s.inFlight x rest } x
        message = .ok (System.putCaller { s with inFlight := Function.update s.inFlight x rest } x
          (s.channel x).toCaller []) := by
      simp only [System.receive, RpcChannel.onRpcMessage, htype, ok_bind]
      rfl
    rw [hreceive]
    refine Coherent.put (h.sound x) (h.sound x.other) ?_ ?_
    · simp only [hself, hother]
      rw [show requestsOf [] = [] from rfl, List.append_nil]
      exact hown
    · simp only [hself, hother]
      rw [show responsesOf [] = [] from rfl, List.append_nil]
      exact hpeer

theorem step_coherent (h : Coherent pb content s) {e : Event M} (he : s.enabled e) :
    Yields (Coherent pb content) (fun f => f = .assertion ∧ e.Malformed) (s.step pb e) := by
  cases e with
  | beginCall x call =>
    refine h.putCaller nofun ((h.sound x).beginCall he.1 he.2) ?_
    rw [List.append_nil]
    exact (h.linked x).beginCall call
  | enter x id =>
    obtain ⟨p, hp, rfl, hnew⟩ := he
    refine h.putCaller nofun ((h.sound x).enter hp hnew) ?_
    rw [List.append_nil]
    exact (h.linked x).enter p.id
  | send x id =>
    obtain ⟨p, hp, rfl, -, hnew⟩ := he
    have hout : ((s.channel x).send pb p.id).2 = [p.message pb] := by
      rw [Caller.send, (h.sound x).find hp]
      rfl
    refine h.putCaller (fun m hm => ?_) (h.sound x).send ?_
    · rw [hout] at hm
      rw [List.mem_singleton.mp hm]
      rfl
    · rw [hout]
      exact (h.linked x).send (h.sound x) hp hnew
  | deliver x =>
    obtain ⟨hidle, hne⟩ := he
    obtain ⟨message, rest, hin⟩ := List.exists_cons_of_ne_nil hne
    simp only [System.step, hin]
    exact (h.deliver hin hidle).weaken fun f hf => hf.elim
  | inject x message =>
    obtain ⟨hidle, htype, hm⟩ := he
    by_cases hanswers : message.response.isSome ∨ message.error.isSome
    · exact (h.response htype hidle hm hanswers).weaken fun f hf => hf.elim
    · have hfault : s.step pb (.inject x message) = .error .assertion := by
        simp only [System.step, System.receive, RpcChannel.onRpcMessage, htype,
          check_neg hanswers, error_bind]
      rw [hfault]
      rw [not_or] at hanswers
      exact ⟨rfl, by simpa using hanswers.1, by simpa using hanswers.2⟩
  | runDone x =>
    obtain ⟨a, ha, hran⟩ := he
    refine h.putCaller nofun ((h.sound x).runDone ha hran) ?_
    rw [List.append_nil]
    exact (h.linked x).runDone
  | finish x =>
    obtain ⟨a, ha, hran⟩ := he
    refine h.putCaller nofun ((h.sound x).finish ha hran) ?_
    rw [List.append_nil]
    exact (h.linked x).finish
  | complete x id response =>
    obtain ⟨hl, hresponses⟩ := h.peer.doneCallback he response
    exact Coherent.putCallee hresponses h.sound (h.linked x) hl

/-- In every run of two channels the calls of each side are matched to their answers. Only an
injected message without an answer stops a run. -/
theorem calls_matched (services : Side → Option (String → Option (Service M)))
    {es : List (Event M)}
    (h : (machine pb).Legal (fun _ _ => True) (.new content services) es) :
    Yields
      (fun s => ∀ x, Matched pb (content x) (s.channel x).toCaller (s.channel x.other).toCallee)
      (fun f => f = .assertion ∧ ∃ e ∈ es, e.Malformed)
      ((machine pb).run (.new content services) es) := by
  have hcoherent : Yields (Coherent pb content) (fun f => f = .assertion ∧ ∃ e ∈ es, e.Malformed)
      ((machine pb).run (.new content services) es) := by
    refine Machine.run_keeps (fun s e hs he hmem => ?_) (new_coherent services)
      (h.all fun e he => he)
    exact (step_coherent hs he).weaken fun f hf => ⟨hf.1, e, hmem, hf.2⟩
  exact hcoherent.mono fun s hs x => .intro (hs.sound x) (hs.linked x)

instance (s : System M) (e : Event M) : Decidable ((machine pb).enabled s e) :=
  inferInstanceAs (Decidable (s.enabled e))

/-- Messages that are their own bytes. -/
def sampleProtobuf : Protobuf Bytes := ⟨id, fun _ bytes => (bytes, true)⟩

/-- The right side has one service with one method. -/
def sampleServices : Side → Option (String → Option (Service Bytes))
  | .left => none
  | .right => some fun service =>
    if service = "Echo" then some fun method => if method = "echo" then some ⟨[], []⟩ else none
    else none

/-- Two calls, the second made by the closure of the first; the first is answered, and again by a
copy, the second finds no method. A RESPONSE with an unknown id comes in between. -/
def sampleRun : List (Event Bytes) :=
  [.beginCall .left ⟨"Echo", "echo", [1, 2], 7, some 3⟩, .enter .left 1, .send .left 1,
    .deliver .right, .inject .left (errorMessage 9 .timeout), .complete .right 1 [3, 4],
    .deliver .left, .runDone .left, .beginCall .left ⟨"Echo", "none", [5], 8, none⟩,
    .enter .left 2, .finish .left, .send .left 2,
    .inject .left (doneMessage sampleProtobuf 1 [3, 4]), .deliver .right, .deliver .left,
    .runDone .left, .finish .left]

theorem calls_matched_sample :
    Yields
      (fun s => ∀ x, Matched sampleProtobuf (fun _ => [])
        (s.channel x).toCaller (s.channel x.other).toCallee)
      (fun f => f = .assertion ∧ ∃ e ∈ sampleRun, e.Malformed)
      ((machine sampleProtobuf).run (.new (fun _ _ => []) sampleServices) sampleRun) :=
  calls_matched sampleServices (by decide +kernel)

end Muduo.Net.Rpc
