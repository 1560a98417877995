import Mathlib.Data.List.Nodup
import Muduo.Net.RpcCaller

namespace Muduo.Net.Rpc
open Muduo.Lib

variable {M : Type} {pb : Protobuf M} {c c' : Caller M} {s : Callee M} {p : Activation M}
  {requests responses : List RpcMessage} {message : RpcMessage}

/-- A RESPONSE to a REQUEST: what its service answered, or an error code. -/
def Replies (pb : Protobuf M) (s : Callee M) (request reply : RpcMessage) : Prop :=
  (∃ r, (request, r) ∈ s.completed ∧ reply = doneMessage pb request.id r) ∨
    ∃ e, reply = errorMessage request.id e

/-- The calls of one side, the REQUESTs under way to the other, what that side did for them and
the RESPONSEs under way back. -/
structure Linked (pb : Protobuf M) (c : Caller M) (s : Callee M)
    (requests responses : List RpcMessage) : Prop where
  sent : ∀ m ∈ requests ++ s.requests, ∃ p ∈ c.calls, p.sent = true ∧ p.message pb = m
  once : ((requests ++ s.requests).map (·.id)).Nodup
  pending : ∀ q ∈ s.pending, q.message ∈ s.requests
  handled : (s.pending.map (·.message.id) ++ s.responses.map (·.id)).Nodup
  replies : ∀ m ∈ s.responses, ∃ q ∈ s.requests, Replies pb s q m
  flight : ∀ m ∈ responses, m ∈ s.responses
  answered : ∀ p ∈ c.calls, ∀ m, c.answer p = some m → m ∈ s.responses

/-- What holds of the calls of one side and their answers by the other. `content` is what the
response objects held when they were handed over. -/
structure Matched (pb : Protobuf M) (content : Object → M) (c : Caller M) (s : Callee M) :
    Prop where
  ids : ∀ p ∈ c.calls, ∀ q ∈ c.calls, p.id = q.id → p = q
  outstanding : ∀ id out, c.outstandings id = some out ↔
    ∃ p ∈ c.calls, p.id = id ∧ p.out = out ∧ p.since ≠ none ∧ c.answer p = none
  ran_once : (c.ran.map Prod.fst).Nodup
  ran : ∀ p ∈ c.calls, ∀ d, p.call.done = some d → (d ∈ c.ran.map Prod.fst ↔ c.Handled p)
  saw : ∀ p ∈ c.calls, ∀ d v, p.call.done = some d → (d, v) ∈ c.ran →
    v = c.content p.call.response
  payload : ∀ p ∈ c.calls, c.Handled p →
    (∃ r, (p.message pb, r) ∈ s.completed ∧ c.answer p = some (doneMessage pb p.id r) ∧
      c.content p.call.response =
        (pb.parseFromString (content p.call.response) (pb.serializeAsString r)).1) ∨
    (∃ e, c.answer p = some (errorMessage p.id e)) ∧
      c.content p.call.response = content p.call.response
  freed : ∀ p ∈ c.calls, c.Finished p → c.freed.count p.call.response = 1
  kept : ∀ p ∈ c.calls, ¬c.Finished p → c.freed.count p.call.response = 0
  requests : (s.requests.map (·.id)).Nodup
  responses : (s.responses.map (·.id)).Nodup
  requested : ∀ m ∈ s.responses, ∃ q ∈ s.requests, q.id = m.id

theorem Replies.id {q m : RpcMessage} (h : Replies pb s q m) : m.id = q.id := by
  rcases h with ⟨r, -, rfl⟩ | ⟨e, rfl⟩ <;> rfl

theorem Replies.type {q m : RpcMessage} (h : Replies pb s q m) : m.type = .response := by
  rcases h with ⟨r, -, rfl⟩ | ⟨e, rfl⟩ <;> rfl

theorem Replies.answers {q m : RpcMessage} (h : Replies pb s q m) :
    m.response.isSome ∨ m.error.isSome := by
  rcases h with ⟨r, -, rfl⟩ | ⟨e, rfl⟩
  · exact .inl rfl
  · exact .inr rfl

theorem Matched.intro {content : Object → M} (h : Caller.Sound pb content c)
    (hl : Linked pb c s requests responses) : Matched pb content c s where
  ids := h.ids
  outstanding := h.outstanding
  ran_once := h.ran_once
  ran := fun p hp d hd => by
    refine ⟨fun hmem => ?_, fun hh => h.ran_all p hp hh d hd⟩
    obtain ⟨r, hr, rfl⟩ := List.mem_map.mp hmem
    obtain ⟨q, hq, hqd, hh, -⟩ := h.ran r hr
    rwa [h.closures q hq p hp r.1 hqd hd] at hh
  saw := fun p hp d v hd hmem => by
    obtain ⟨q, hq, hqd, hh, m, hm, hv⟩ := h.ran _ hmem
    obtain rfl := h.closures q hq p hp d hqd hd
    exact hv.trans (h.holds q hq hh m hm).symm
  payload := fun p hp hh => by
    obtain ⟨m, hm⟩ := Option.ne_none_iff_exists'.mp hh.1
    obtain ⟨q, hq, hreply⟩ := hl.replies m (hl.answered p hp m hm)
    obtain ⟨p', hp', -, hmessage⟩ := hl.sent q (List.mem_append_right _ hq)
    have hpid : p'.id = p.id := by
      have hid := Caller.answer_id hm
      rw [hreply.id, ← hmessage] at hid
      exact hid
    obtain rfl := h.ids p' hp' p hp hpid
    obtain rfl := hmessage
    have hholds := h.holds p' hp hh m hm
    rcases hreply with ⟨r, hr, rfl⟩ | ⟨e, rfl⟩
    · exact .inl ⟨r, hr, hm, hholds⟩
    · exact .inr ⟨⟨e, hm⟩, hholds⟩
  freed := fun p hp hf => List.count_eq_one_of_mem h.freed_once (h.freed_all p hp hf)
  kept := fun p hp hf => by
    refine List.count_eq_zero.mpr fun hmem => ?_
    obtain ⟨q, hq, hqo, hqf⟩ := h.freed _ hmem
    rw [h.objects q hq p hp hqo] at hqf
    exact hf hqf
  requests := by
    have := hl.once
    rw [List.map_append] at this
    exact (List.nodup_append.mp this).2.1
  responses := (List.nodup_append.mp hl.handled).2.1
  requested := fun m hm => by
    obtain ⟨q, hq, hreply⟩ := hl.replies m hm
    exact ⟨q, hq, hreply.id.symm⟩

/-- A step of the caller that forgets no sent call and answers none without a RESPONSE. -/
theorem Linked.ofCaller (h : Linked pb c s requests responses)
    (hsent : ∀ p ∈ c.calls, p.sent = true →
      ∃ q ∈ c'.calls, q.sent = true ∧ q.message pb = p.message pb)
    (hans : ∀ p ∈ c'.calls, ∀ m, c'.answer p = some m → m ∈ s.responses) :
    Linked pb c' s requests responses where
  sent := fun m hm => by
    obtain ⟨p, hp, hps, rfl⟩ := h.sent m hm
    exact hsent p hp hps
  once := h.once
  pending := h.pending
  handled := h.handled
  replies := h.replies
  flight := h.flight
  answered := hans

theorem Linked.beginCall (h : Linked pb c s requests responses) (call : Call M) :
    Linked pb (c.beginCall call) s requests responses := by
  refine h.ofCaller (fun p hp hps => ⟨p, List.mem_append_left _ hp, hps, rfl⟩) fun p hp m hm => ?_
  rcases List.mem_append.mp hp with hp | hp
  · exact h.answered p hp m hm
  · rw [List.mem_singleton.mp hp] at hm
    exact nomatch hm

theorem Linked.enter (h : Linked pb c s requests responses) (id : Nat) :
    Linked pb (c.enter id) s requests responses := by
  rw [Caller.enter]
  split
  · exact h
  · refine h.ofCaller (fun p hp hps => ⟨_, List.mem_map_of_mem hp, ?_⟩) fun p hp m hm => ?_
    · split <;> exact ⟨hps, rfl⟩
    · obtain ⟨q, hq, rfl⟩ := List.mem_map.mp hp
      by_cases hid : q.id = id
      · rw [if_pos hid] at hm
        change (List.drop c.delivered.length c.delivered).find? _ = some m at hm
        rw [List.drop_length] at hm
        cases hm
      · rw [if_neg hid] at hm
        exact h.answered q hq m hm

theorem Linked.send {content : Object → M} (h : Linked pb c s requests responses)
    (hs : Caller.Sound pb content c) (hp : p ∈ c.calls) (hnew : p.sent = false) :
    Linked pb (c.send pb p.id).1 s (requests ++ [p.message pb]) responses := by
  have hid : p.id ∉ (requests ++ s.requests).map (·.id) := fun hmem => by
    obtain ⟨m, hm, hmid⟩ := List.mem_map.mp hmem
    obtain ⟨q, hq, hqs, rfl⟩ := h.sent m hm
    rw [hs.ids q hq p hp hmid, hnew] at hqs
    exact nomatch hqs
  have hperm : (requests ++ [p.message pb] ++ s.requests).Perm
      (p.message pb :: (requests ++ s.requests)) := by
    rw [List.append_assoc]
    exact List.perm_middle
  have hcalls : ∀ q ∈ c.calls, ∃ q' ∈ (c.send pb p.id).1.calls,
      (q.sent = true ∨ q = p → q'.sent = true) ∧ q'.message pb = q.message pb := by
    intro q hq
    refine ⟨_, List.mem_map_of_mem hq, ?_⟩
    split
    · exact ⟨fun _ => rfl, rfl⟩
    · rename_i hne
      refine ⟨fun hor => ?_, rfl⟩
      rcases hor with hqs | rfl
      · exact hqs
      · exact absurd rfl hne
  have hold : Linked pb (c.send pb p.id).1 s requests responses := by
    refine h.ofCaller (fun q hq hqs => ?_) fun q hq m hm => ?_
    · obtain ⟨q', hq', hs', hm'⟩ := hcalls q hq
      exact ⟨q', hq', hs' (.inl hqs), hm'⟩
    · obtain ⟨q', hq', rfl⟩ := List.mem_map.mp hq
      split at hm <;> exact h.answered q' hq' m hm
  exact {
    sent := fun m hm => by
      rcases List.mem_cons.mp (hperm.mem_iff.mp hm) with rfl | hm
      · obtain ⟨q', hq', hs', hm'⟩ := hcalls p hp
        exact ⟨q', hq', hs' (.inr rfl), hm'⟩
      · exact hold.sent m hm
    once := by
      rw [(hperm.map _).nodup_iff]
      exact List.nodup_cons.mpr ⟨hid, h.once⟩
    pending := h.pending
    handled := h.handled
    replies := h.replies
    flight := h.flight
    answered := hold.answered }

/-- A RESPONSE that the peer sent is taken in, or one with an unknown id. -/
theorem Linked.takeEntry {content : Object → M} (h : Linked pb c s requests responses)
    (hs : Caller.Sound pb content c)
    (hm : message ∈ s.responses ∨ c.outstandings message.id = none) :
    Linked pb (c.takeEntry message) s requests responses := by
  refine h.ofCaller (fun p hp hps => ⟨p, hp, hps, rfl⟩) fun p hp m hans => ?_
  rw [Caller.answer_takeEntry (hs.since p hp)] at hans
  cases hp' : c.answer p with
  | some m' =>
    rw [hp', Option.some_or] at hans
    exact Option.some.inj hans ▸ h.answered p hp m' hp'
  | none =>
    rw [hp', Option.none_or] at hans
    split at hans
    · rename_i hif
      obtain rfl := Option.some.inj hans
      have hout := (hs.outstanding message.id p.out).mpr ⟨p, hp, hif.2.symm, rfl, hif.1, hp'⟩
      exact hm.resolve_right fun hn => nomatch hn.symm.trans hout
    · exact nomatch hans

theorem Linked.runDone (h : Linked pb c s requests responses) :
    Linked pb (c.runDone pb) s requests responses := by
  rw [Caller.runDone]
  split
  · exact h
  · exact h.ofCaller (fun p hp hps => ⟨p, hp, hps, rfl⟩) h.answered

theorem Linked.finish (h : Linked pb c s requests responses) :
    Linked pb c.finish s requests responses := by
  rw [Caller.finish]
  split
  · exact h
  · exact h.ofCaller (fun p hp hps => ⟨p, hp, hps, rfl⟩) h.answered

/-- The callee sends the RESPONSE to a REQUEST it has, which had none and is not pending. -/
theorem Linked.respond (h : Linked pb c s requests responses) {q : RpcMessage}
    (hq : q ∈ s.requests) (hfree : q.id ∉ s.pending.map (·.message.id) ++ s.responses.map (·.id))
    (hreply : Replies pb s q message) :
    Linked pb c (s.respond message).1 requests (responses ++ (s.respond message).2) where
  sent := h.sent
  once := h.once
  pending := h.pending
  handled := by
    have hperm : (s.pending.map (·.message.id) ++ (s.responses ++ [message]).map (·.id)).Perm
        (message.id :: (s.pending.map (·.message.id) ++ s.responses.map (·.id))) := by
      rw [List.map_append, ← List.append_assoc]
      exact List.perm_append_singleton _ _
    rw [← hreply.id] at hfree
    exact hperm.nodup_iff.mpr (List.nodup_cons.mpr ⟨hfree, h.handled⟩)
  replies := fun m hm => by
    rcases List.mem_append.mp hm with hm | hm
    · exact h.replies m hm
    · exact ⟨q, hq, List.mem_singleton.mp hm ▸ hreply⟩
  flight := fun m hm => by
    rcases List.mem_append.mp hm with hm | hm
    · exact List.mem_append_left _ (h.flight m hm)
    · exact List.mem_append_right _ hm
  answered := fun p hp m hm => List.mem_append_left _ (h.answered p hp m hm)

/-- A REQUEST is handed over. -/
theorem Linked.request (h : Linked pb c s (message :: requests) responses) :
    Linked pb c { s with requests := s.requests ++ [message] } requests responses ∧
      message.id ∉ s.pending.map (·.message.id) ++ s.responses.map (·.id) := by
  have hperm : (requests ++ (s.requests ++ [message])).Perm
      (message :: requests ++ s.requests) := by
    rw [← List.append_assoc]
    exact List.perm_append_singleton _ _
  have hid : message.id ∉ (requests ++ s.requests).map (·.id) := by
    have := h.once
    rw [List.cons_append, List.map_cons, List.nodup_cons] at this
    exact this.1
  refine ⟨{
    sent := fun m hm => h.sent m (hperm.mem_iff.mp hm)
    once := (hperm.map _).nodup_iff.mpr h.once
    pending := fun q hq => List.mem_append_left _ (h.pending q hq)
    handled := h.handled
    replies := fun m hm => by
      obtain ⟨q, hq, hreply⟩ := h.replies m hm
      exact ⟨q, List.mem_append_left _ hq, hreply⟩
    flight := h.flight
    answered := h.answered }, fun hmem => ?_⟩
  refine hid ?_
  rw [List.map_append, List.mem_append]
  refine .inr ?_
  rcases List.mem_append.mp hmem with hmem | hmem
  · obtain ⟨q, hq, hqid⟩ := List.mem_map.mp hmem
    exact List.mem_map.mpr ⟨q.message, h.pending q hq, hqid⟩
  · obtain ⟨m, hm, hmid⟩ := List.mem_map.mp hmem
    obtain ⟨q, hq, hreply⟩ := h.replies m hm
    exact List.mem_map.mpr ⟨q, hq, hreply.id.symm.trans hmid⟩

theorem dispatch_message {serving : Serving M} (h : s.dispatch pb message = .ok serving) :
    serving.message = message := by
  unfold Callee.dispatch at h
  split at h
  · exact nomatch h
  · split at h
    · exact nomatch h
    · split at h
      · exact nomatch h
      · simp only at h
        split at h
        · rw [← Except.ok.inj h]
        · exact nomatch h

theorem Linked.onRequest (h : Linked pb c s (message :: requests) responses) :
    Linked pb c (s.onRequest pb message).1 requests (responses ++ (s.onRequest pb message).2) := by
  obtain ⟨hl, hfree⟩ := h.request
  cases hd : Callee.dispatch pb { s with requests := s.requests ++ [message] } message with
  | error e =>
    simp only [Callee.onRequest, hd]
    exact hl.respond (List.mem_append_right _ List.mem_cons_self) hfree (.inr ⟨e, rfl⟩)
  | ok serving =>
    have hm := dispatch_message hd
    simp only [Callee.onRequest, hd, List.append_nil]
    exact { hl with
      pending := fun q hq => by
        rcases List.mem_append.mp hq with hq | hq
        · exact hl.pending q hq
        · rw [List.mem_singleton.mp hq, hm]
          exact List.mem_append_right _ List.mem_cons_self
      handled := by
        have hperm : ((s.pending ++ [serving]).map (·.message.id) ++ s.responses.map (·.id)).Perm
            (message.id :: (s.pending.map (·.message.id) ++ s.responses.map (·.id))) := by
          rw [List.map_append, List.append_assoc, ← hm]
          exact List.perm_middle
        exact hperm.nodup_iff.mpr (List.nodup_cons.mpr ⟨hfree, hl.handled⟩) }

theorem onRequest_responses (message : RpcMessage) :
    ∀ m ∈ (s.onRequest pb message).2, m.type = .response := by
  unfold Callee.onRequest
  simp only
  split
  · exact nofun
  · intro m hm
    rw [List.mem_singleton.mp hm]
    rfl

/-- The closure of a pending REQUEST runs. -/
theorem Linked.doneCallback (h : Linked pb c s requests responses) {id : Nat}
    (hid : ∃ q ∈ s.pending, q.message.id = id) (r : M) :
    Linked pb c (s.doneCallback pb id r).1 requests
        (responses ++ (s.doneCallback pb id r).2) ∧
      ∀ m ∈ (s.doneCallback pb id r).2, m.type = .response := by
  cases hf : s.pending.find? (·.message.id = id) with
  | none =>
    obtain ⟨q, hq, hqid⟩ := hid
    exact absurd hqid (by simpa using List.find?_eq_none.mp hf q hq)
  | some serving =>
    obtain ⟨hserving, before, after, hsplit, hbefore⟩ := List.find?_eq_some_iff_append.mp hf
    have hserving : serving.message.id = id := by simpa using hserving
    have herase : s.pending.eraseP (·.message.id = id) = before ++ after := by
      rw [hsplit, List.eraseP_append_right _ (fun b hb => by simpa using hbefore b hb),
        List.eraseP_cons_of_pos (by simpa using hserving)]
    have hperm : (s.pending.map (·.message.id) ++ s.responses.map (·.id)).Perm
        (id :: ((before ++ after).map (·.message.id) ++ s.responses.map (·.id))) := by
      rw [hsplit, List.map_append, List.map_cons, List.map_append, List.append_assoc,
        List.append_assoc, hserving]
      exact List.perm_middle
    obtain ⟨hfree, hrest⟩ := List.nodup_cons.mp (hperm.nodup_iff.mp h.handled)
    have hin : serving.message ∈ s.requests := h.pending serving (List.mem_of_find?_eq_some hf)
    have hl : Linked pb c
        { s with
          pending := before ++ after
          completed := s.completed ++ [(serving.message, r)] } requests responses := { h with
      pending := fun q hq => h.pending q (by
        rw [hsplit]
        rcases List.mem_append.mp hq with hq | hq
        · exact List.mem_append_left _ hq
        · exact List.mem_append_right _ (List.mem_cons_of_mem _ hq))
      handled := hrest
      replies := fun m hm => by
        obtain ⟨q, hq, hreply⟩ := h.replies m hm
        refine ⟨q, hq, hreply.imp_left ?_⟩
        rintro ⟨r', hr', hm'⟩
        exact ⟨r', List.mem_append_left _ hr', hm'⟩ }
    have hdone : s.doneCallback pb id r =
        Callee.respond
          { s with
            pending := before ++ after
            completed := s.completed ++ [(serving.message, r)] } (doneMessage pb id r) := by
      rw [Callee.doneCallback, hf, herase]
    rw [hdone]
    refine ⟨hl.respond hin (by rw [hserving]; exact hfree) (.inl ⟨r, ?_, by rw [hserving]⟩),
      fun m hm => ?_⟩
    · exact List.mem_append_right _ List.mem_cons_self
    · rw [List.mem_singleton.mp hm]
      rfl

end Muduo.Net.Rpc
