import Mathlib.Tactic.Common
import Muduo.Net.RpcChannel

namespace Muduo.Net.Rpc.Caller
open Muduo.Lib

variable {M : Type} {pb : Protobuf M} {content : Object → M} {c : Caller M} {p q : Activation M}
  {a : Answering} {id : Nat}

/-- The first RESPONSE carrying the id of a call that came after it made its entry. -/
def answer (c : Caller M) (p : Activation M) : Option RpcMessage :=
  p.since.bind fun n => (c.delivered.drop n).find? (·.id = p.id)

/-- The call is answered, and the loop is past running its `done`. -/
def Handled (c : Caller M) (p : Activation M) : Prop :=
  c.answer p ≠ none ∧ ∀ a, c.answering = some a → a.message.id = p.id → a.ran = true

/-- The call is answered, and `onRpcMessage` has returned. -/
def Finished (c : Caller M) (p : Activation M) : Prop :=
  c.answer p ≠ none ∧ ∀ a, c.answering = some a → a.message.id ≠ p.id

/-- `content` is what the response objects held when they were handed over. -/
structure Sound (pb : Protobuf M) (content : Object → M) (c : Caller M) : Prop where
  ids_le : ∀ p ∈ c.calls, p.id ≤ c.id
  ids : ∀ p ∈ c.calls, ∀ q ∈ c.calls, p.id = q.id → p = q
  objects : ∀ p ∈ c.calls, ∀ q ∈ c.calls, p.call.response = q.call.response → p = q
  closures : ∀ p ∈ c.calls, ∀ q ∈ c.calls, ∀ d, p.call.done = some d → q.call.done = some d → p = q
  since : ∀ p ∈ c.calls, ∀ n, p.since = some n → n ≤ c.delivered.length
  outstanding : ∀ id out, c.outstandings id = some out ↔
    ∃ p ∈ c.calls, p.id = id ∧ p.out = out ∧ p.since ≠ none ∧ c.answer p = none
  answering : ∀ a, c.answering = some a →
    ∃ p ∈ c.calls, p.out = a.out ∧ c.answer p = some a.message
  untouched : ∀ o, (∀ p ∈ c.calls, p.call.response = o → ¬c.Handled p) → c.content o = content o
  holds : ∀ p ∈ c.calls, c.Handled p → ∀ m, c.answer p = some m →
    c.content p.call.response = outcome pb m (content p.call.response)
  ran : ∀ r ∈ c.ran, ∃ p ∈ c.calls, p.call.done = some r.1 ∧ c.Handled p ∧
    ∃ m, c.answer p = some m ∧ r.2 = outcome pb m (content p.call.response)
  ran_all : ∀ p ∈ c.calls, c.Handled p → ∀ d, p.call.done = some d → d ∈ c.ran.map Prod.fst
  ran_once : (c.ran.map Prod.fst).Nodup
  freed : ∀ o ∈ c.freed, ∃ p ∈ c.calls, p.call.response = o ∧ c.Finished p
  freed_all : ∀ p ∈ c.calls, c.Finished p → p.call.response ∈ c.freed
  freed_once : c.freed.Nodup

theorem answer_id {m : RpcMessage} (h : c.answer p = some m) : m.id = p.id := by
  obtain ⟨n, -, hn⟩ := Option.bind_eq_some_iff.mp h
  simpa using List.find?_some hn

theorem answer_takeEntry {message : RpcMessage}
    (hs : ∀ n, p.since = some n → n ≤ c.delivered.length) : (c.takeEntry message).answer p =
      (c.answer p).or (if p.since ≠ none ∧ message.id = p.id then some message else none) := by
  cases hn : p.since with
  | none => simp [answer, hn]
  | some n =>
    simp only [answer, takeEntry, hn, Option.bind_some, List.drop_append_of_le_length (hs n hn),
      List.find?_append, List.find?_singleton]
    simp

theorem Sound.find (h : Sound pb content c) (hp : p ∈ c.calls) :
    c.calls.find? (·.id = p.id) = some p := by
  cases hf : c.calls.find? (·.id = p.id) with
  | none =>
    have := List.find?_eq_none.mp hf p hp
    simp at this
  | some q =>
    have hq : q.id = p.id := by simpa using List.find?_some hf
    rw [h.ids q (List.mem_of_find?_eq_some hf) p hp hq]

/-- The call that is being answered. -/
theorem Sound.current (h : Sound pb content c) (ha : c.answering = some a) :
    ∃ p ∈ c.calls, p.out = a.out ∧ c.answer p = some a.message ∧
      ∀ q ∈ c.calls, a.message.id = q.id → q = p := by
  obtain ⟨p, hp, hout, hm⟩ := h.answering a ha
  exact ⟨p, hp, hout, hm, fun q hq hid => h.ids q hq p hp (hid.symm.trans (answer_id hm))⟩

theorem Sound.beginCall (h : Sound pb content c) {call : Call M} (hid : c.id + 1 < 2 ^ 63)
    (hfresh : ∀ p ∈ c.calls, p.call.response ≠ call.response ∧
      (p.call.done = call.done → call.done = none)) : Sound pb content (c.beginCall call) := by
  have hmod : (c.id + 1) % 2 ^ 64 = c.id + 1 := Nat.mod_eq_of_lt (by omega)
  have hmem : ∀ p, p ∈ (c.beginCall call).calls ↔
      p ∈ c.calls ∨ p = ⟨c.id + 1, call, none, false⟩ := by
    intro p
    rw [Caller.beginCall, hmod]
    simp
  have hold : ∀ p ∈ c.calls, p.id ≠ c.id + 1 := fun p hp => by
    have := h.ids_le p hp
    omega
  exact {
    ids_le := fun p hp => by
      change p.id ≤ (c.id + 1) % 2 ^ 64
      rw [hmod]
      rcases (hmem p).mp hp with hp | rfl
      · have := h.ids_le p hp
        omega
      · exact Nat.le_refl _
    ids := fun p hp q hq hpq => by
      rcases (hmem p).mp hp with hp | rfl <;> rcases (hmem q).mp hq with hq | rfl
      · exact h.ids p hp q hq hpq
      · exact absurd hpq (hold p hp)
      · exact absurd hpq.symm (hold q hq)
      · rfl
    objects := fun p hp q hq hpq => by
      rcases (hmem p).mp hp with hp | rfl <;> rcases (hmem q).mp hq with hq | rfl
      · exact h.objects p hp q hq hpq
      · exact absurd hpq (hfresh p hp).1
      · exact absurd hpq.symm (hfresh q hq).1
      · rfl
    closures := fun p hp q hq d hpd hqd => by
      rcases (hmem p).mp hp with hp | rfl <;> rcases (hmem q).mp hq with hq | rfl
      · exact h.closures p hp q hq d hpd hqd
      · exact nomatch hqd.symm.trans ((hfresh p hp).2 (hpd.trans hqd.symm))
      · exact nomatch hpd.symm.trans ((hfresh q hq).2 (hqd.trans hpd.symm))
      · rfl
    since := fun p hp n hn => by
      rcases (hmem p).mp hp with hp | rfl
      · exact h.since p hp n hn
      · exact nomatch hn
    outstanding := fun id out => by
      refine (h.outstanding id out).trans ⟨?_, ?_⟩
      · rintro ⟨p, hp, hout⟩
        exact ⟨p, (hmem p).mpr (.inl hp), hout⟩
      · rintro ⟨p, hp, hpid, hout, hsince, hans⟩
        rcases (hmem p).mp hp with hp | rfl
        · exact ⟨p, hp, hpid, hout, hsince, hans⟩
        · exact absurd rfl hsince
    answering := fun a ha => by
      obtain ⟨p, hp, hout⟩ := h.answering a ha
      exact ⟨p, (hmem p).mpr (.inl hp), hout⟩
    untouched := fun o ho => h.untouched o fun p hp => ho p ((hmem p).mpr (.inl hp))
    holds := fun p hp hh => by
      rcases (hmem p).mp hp with hp | rfl
      · exact h.holds p hp hh
      · exact absurd rfl hh.1
    ran := fun r hr => by
      obtain ⟨p, hp, hran⟩ := h.ran r hr
      exact ⟨p, (hmem p).mpr (.inl hp), hran⟩
    ran_all := fun p hp hh => by
      rcases (hmem p).mp hp with hp | rfl
      · exact h.ran_all p hp hh
      · exact absurd rfl hh.1
    ran_once := h.ran_once
    freed := fun o ho => by
      obtain ⟨p, hp, hf⟩ := h.freed o ho
      exact ⟨p, (hmem p).mpr (.inl hp), hf⟩
    freed_all := fun p hp hf => by
      rcases (hmem p).mp hp with hp | rfl
      · exact h.freed_all p hp hf
      · exact absurd rfl hf.1
    freed_once := h.freed_once }

theorem handled_congr (hid : p.id = q.id) (ha : c.answer p = c.answer q) :
    c.Handled p ↔ c.Handled q := by
  rw [Handled, Handled, hid, ha]

theorem finished_congr (hid : p.id = q.id) (ha : c.answer p = c.answer q) :
    c.Finished p ↔ c.Finished q := by
  rw [Finished, Finished, hid, ha]

/-- What is done to the calls with an id leaves their ids, their arguments and their answers. -/
structure Keeps (c : Caller M) (id : Nat) (f : Activation M → Activation M) : Prop where
  ids : ∀ p, (f p).id = p.id
  calls : ∀ p, (f p).call = p.call
  answers : ∀ p ∈ c.calls, p.id = id → c.answer (f p) = c.answer p

theorem Keeps.image {f : Activation M → Activation M} (hf : c.Keeps id f) (hq : q ∈ c.calls)
    (heq : p = if q.id = id then f q else q) :
    p.id = q.id ∧ p.call = q.call ∧ c.answer p = c.answer q := by
  subst heq
  by_cases hk : q.id = id
  · rw [if_pos hk]
    exact ⟨hf.ids q, hf.calls q, hf.answers q hq hk⟩
  · rw [if_neg hk]
    exact ⟨rfl, rfl, rfl⟩

theorem Keeps.back {f : Activation M → Activation M} (hf : c.Keeps id f)
    (hp : p ∈ c.rewrite id f) : ∃ q ∈ c.calls, p = (if q.id = id then f q else q) ∧
      p.id = q.id ∧ p.call = q.call ∧ c.answer p = c.answer q := by
  obtain ⟨q, hq, heq⟩ := List.mem_map.mp hp
  exact ⟨q, hq, heq.symm, hf.image hq heq.symm⟩

theorem Keeps.forth {f : Activation M → Activation M} (hf : c.Keeps id f) (hq : q ∈ c.calls) :
    ∃ p ∈ c.rewrite id f, p.id = q.id ∧ p.call = q.call ∧ c.answer p = c.answer q :=
  ⟨_, List.mem_map_of_mem hq, hf.image hq rfl⟩

/-- A step of a run of `CallMethod` that changes no call and no answer. -/
theorem Sound.rewrite (h : Sound pb content c) {f : Activation M → Activation M}
    {outstandings : Nat → Option OutstandingCall} (hkeeps : c.Keeps id f)
    (hsince : ∀ p n, (f p).since = some n → p.since = some n ∨ n ≤ c.delivered.length)
    (hout : ∀ k out, outstandings k = some out ↔ ∃ p ∈ c.rewrite id f,
      p.id = k ∧ p.out = out ∧ p.since ≠ none ∧ c.answer p = none) :
    Sound pb content { c with outstandings := outstandings, calls := c.rewrite id f } := by
  exact {
    ids_le := fun p hp => by
      obtain ⟨q, hq, -, hpid, -⟩ := hkeeps.back hp
      exact hpid ▸ h.ids_le q hq
    ids := fun p hp q hq hpq => by
      obtain ⟨p', hp', hpe, hpid, -⟩ := hkeeps.back hp
      obtain ⟨q', hq', hqe, hqid, -⟩ := hkeeps.back hq
      rw [hpe, hqe, h.ids p' hp' q' hq' (hpid.symm.trans (hpq.trans hqid))]
    objects := fun p hp q hq hpq => by
      obtain ⟨p', hp', hpe, -, hpc, -⟩ := hkeeps.back hp
      obtain ⟨q', hq', hqe, -, hqc, -⟩ := hkeeps.back hq
      rw [hpc, hqc] at hpq
      rw [hpe, hqe, h.objects p' hp' q' hq' hpq]
    closures := fun p hp q hq d hpd hqd => by
      obtain ⟨p', hp', hpe, -, hpc, -⟩ := hkeeps.back hp
      obtain ⟨q', hq', hqe, -, hqc, -⟩ := hkeeps.back hq
      rw [hpc] at hpd
      rw [hqc] at hqd
      rw [hpe, hqe, h.closures p' hp' q' hq' d hpd hqd]
    since := fun p hp n hn => by
      obtain ⟨q, hq, hpe, -⟩ := hkeeps.back hp
      by_cases hk : q.id = id
      · rw [hpe, if_pos hk] at hn
        rcases hsince q n hn with hn | hn
        · exact h.since q hq n hn
        · exact hn
      · rw [hpe, if_neg hk] at hn
        exact h.since q hq n hn
    outstanding := hout
    answering := fun a ha => by
      obtain ⟨q, hq, hqout, hqans⟩ := h.answering a ha
      obtain ⟨p, hp, -, hpc, hpa⟩ := hkeeps.forth hq
      refine ⟨p, hp, ?_, hpa.trans hqans⟩
      rw [← hqout, Activation.out, Activation.out, hpc]
    untouched := fun o ho => h.untouched o fun q hq hqo hh => by
      obtain ⟨p, hp, hpid, hpc, hpa⟩ := hkeeps.forth hq
      exact ho p hp (by rw [hpc]; exact hqo) ((handled_congr hpid hpa).mpr hh)
    holds := fun p hp hh m hm => by
      obtain ⟨q, hq, -, hpid, hpc, hpa⟩ := hkeeps.back hp
      rw [hpc]
      exact h.holds q hq ((handled_congr hpid hpa).mp hh) m (hpa.symm.trans hm)
    ran := fun r hr => by
      obtain ⟨q, hq, hqd, hh, m, hm, hv⟩ := h.ran r hr
      obtain ⟨p, hp, hpid, hpc, hpa⟩ := hkeeps.forth hq
      exact ⟨p, hp, by rw [hpc]; exact hqd, (handled_congr hpid hpa).mpr hh, m, hpa.trans hm,
        by rw [hpc]; exact hv⟩
    ran_all := fun p hp hh d hd => by
      obtain ⟨q, hq, -, hpid, hpc, hpa⟩ := hkeeps.back hp
      rw [hpc] at hd
      exact h.ran_all q hq ((handled_congr hpid hpa).mp hh) d hd
    ran_once := h.ran_once
    freed := fun o ho => by
      obtain ⟨q, hq, hqo, hf⟩ := h.freed o ho
      obtain ⟨p, hp, hpid, hpc, hpa⟩ := hkeeps.forth hq
      exact ⟨p, hp, by rw [hpc]; exact hqo, (finished_congr hpid hpa).mpr hf⟩
    freed_all := fun p hp hf => by
      obtain ⟨q, hq, -, hpid, hpc, hpa⟩ := hkeeps.back hp
      rw [hpc]
      exact h.freed_all q hq ((finished_congr hpid hpa).mp hf)
    freed_once := h.freed_once }

theorem Sound.enter (h : Sound pb content c) (hp : p ∈ c.calls) (hnew : p.since = none) :
    Sound pb content (c.enter p.id) := by
  rw [Caller.enter, h.find hp]
  have hself : ∀ q ∈ c.calls, q.id = p.id → q = p := fun q hq hid => h.ids q hq p hp hid
  have hwaiting : ∀ q : Activation M, c.answer { q with since := some c.delivered.length } = none := by
    intro q
    simp [answer]
  have hbefore : c.answer p = none := by rw [answer, hnew]; rfl
  refine h.rewrite ⟨fun _ => rfl, fun _ => rfl, fun q hq hid => ?_⟩
    (fun q n hn => .inr (by cases hn; exact Nat.le_refl _)) fun k out => ?_
  · rw [hself q hq hid, hbefore]
    exact hwaiting p
  · by_cases hk : k = p.id
    · subst hk
      rw [Function.update_self]
      constructor
      · intro hout
        refine ⟨_, List.mem_map_of_mem hp, ?_⟩
        rw [if_pos rfl]
        exact ⟨rfl, Option.some.inj hout, nofun, hwaiting p⟩
      · rintro ⟨q', hq', hid, hout, -⟩
        obtain ⟨q, hq, rfl⟩ := List.mem_map.mp hq'
        by_cases hqid : q.id = p.id
        · obtain rfl := hself q hq hqid
          rw [if_pos rfl] at hout
          rw [← hout]
          rfl
        · rw [if_neg hqid] at hid
          exact absurd hid hqid
    · rw [Function.update_of_ne hk, h.outstanding]
      constructor
      · rintro ⟨q, hq, rfl, hrest⟩
        refine ⟨_, List.mem_map_of_mem hq, ?_⟩
        rw [if_neg hk]
        exact ⟨rfl, hrest⟩
      · rintro ⟨q', hq', hid, hrest⟩
        obtain ⟨q, hq, rfl⟩ := List.mem_map.mp hq'
        by_cases hqid : q.id = p.id
        · rw [if_pos hqid] at hid
          exact absurd (hid.symm.trans hqid) hk
        · rw [if_neg hqid] at hid hrest
          exact ⟨q, hq, hid, hrest⟩

theorem Sound.send (h : Sound pb content c) : Sound pb content (c.send pb id).1 := by
  refine h.rewrite ⟨fun _ => rfl, fun _ => rfl, fun _ _ _ => rfl⟩ (fun _ _ hn => .inl hn)
    fun k out => (h.outstanding k out).trans ⟨?_, ?_⟩
  · rintro ⟨q, hq, hrest⟩
    refine ⟨_, List.mem_map_of_mem hq, ?_⟩
    split <;> exact hrest
  · rintro ⟨q', hq', hrest⟩
    obtain ⟨q, hq, rfl⟩ := List.mem_map.mp hq'
    refine ⟨q, hq, ?_⟩
    split at hrest <;> exact hrest

theorem takeEntry_answering {message : RpcMessage}
    (ha : (c.takeEntry message).answering = some a) :
    ∃ out, c.outstandings message.id = some out ∧ a = ⟨message, out, false⟩ := by
  obtain ⟨out, hout, rfl⟩ := Option.map_eq_some_iff.mp ha
  exact ⟨out, hout, rfl⟩

theorem Sound.takeEntry_kept (h : Sound pb content c) {message m : RpcMessage} (hp : p ∈ c.calls)
    (hm : c.answer p = some m) : (c.takeEntry message).answer p = some m := by
  rw [answer_takeEntry (h.since p hp), hm, Option.some_or]

/-- Only a call that has no answer yet is answered. -/
theorem Sound.takeEntry_other (h : Sound pb content c) {message : RpcMessage} (hp : p ∈ c.calls)
    (hm : c.answer p ≠ none) (ha : (c.takeEntry message).answering = some a) :
    a.message.id ≠ p.id := by
  intro hid
  obtain ⟨out, hout, rfl⟩ := takeEntry_answering ha
  obtain ⟨q, hq, hqid, -, -, hnone⟩ := (h.outstanding _ _).mp hout
  obtain rfl := h.ids q hq p hp (hqid.trans hid)
  exact hm hnone

/-- The call that the RESPONSE answers is new to `answer`, and being handled. -/
theorem Sound.takeEntry_settled (h : Sound pb content c) {message : RpcMessage}
    (hp : p ∈ c.calls) (hm : (c.takeEntry message).answer p ≠ none)
    (hran : ∀ a, (c.takeEntry message).answering = some a → a.message.id = p.id → a.ran = true) :
    c.answer p ≠ none := by
  intro hnone
  rw [answer_takeEntry (h.since p hp), hnone, Option.none_or] at hm
  obtain ⟨hsince, hid⟩ := (ite_ne_right_iff.mp hm).1
  have hout := (h.outstanding message.id p.out).mpr ⟨p, hp, hid.symm, rfl, hsince, hnone⟩
  have hfalse := hran ⟨message, p.out, false⟩ (by rw [Caller.takeEntry, hout]; rfl) hid
  exact nomatch hfalse

theorem Sound.takeEntry_answered (h : Sound pb content c) {message : RpcMessage}
    (hp : p ∈ c.calls) (hm : c.answer p ≠ none) : (c.takeEntry message).answer p ≠ none := by
  obtain ⟨m, hm⟩ := Option.ne_none_iff_exists'.mp hm
  rw [h.takeEntry_kept hp hm]
  exact nofun

theorem Sound.takeEntry_handled (h : Sound pb content c) (hidle : c.answering = none)
    {message : RpcMessage} (hp : p ∈ c.calls) :
    c.Handled p ↔ (c.takeEntry message).Handled p := by
  constructor
  · rintro ⟨hm, -⟩
    exact ⟨h.takeEntry_answered hp hm, fun a ha hid => absurd hid (h.takeEntry_other hp hm ha)⟩
  · rintro ⟨hm, hran⟩
    exact ⟨h.takeEntry_settled hp hm hran, fun a ha => nomatch hidle.symm.trans ha⟩

theorem Sound.takeEntry_finished (h : Sound pb content c) (hidle : c.answering = none)
    {message : RpcMessage} (hp : p ∈ c.calls) :
    c.Finished p ↔ (c.takeEntry message).Finished p := by
  constructor
  · rintro ⟨hm, -⟩
    exact ⟨h.takeEntry_answered hp hm, fun a ha => h.takeEntry_other hp hm ha⟩
  · rintro ⟨hm, hne⟩
    exact ⟨h.takeEntry_settled hp hm fun a ha hid => absurd hid (hne a ha),
      fun a ha => nomatch hidle.symm.trans ha⟩

/-- A RESPONSE is taken in while none is being handled. -/
theorem Sound.takeEntry (h : Sound pb content c) (hidle : c.answering = none)
    (message : RpcMessage) : Sound pb content (c.takeEntry message) := by
  have hans : ∀ p ∈ c.calls, (c.takeEntry message).answer p =
      (c.answer p).or (if p.since ≠ none ∧ message.id = p.id then some message else none) :=
    fun p hp => answer_takeEntry (h.since p hp)
  exact {
    ids_le := h.ids_le
    ids := h.ids
    objects := h.objects
    closures := h.closures
    since := fun p hp n hn => by
      have := h.since p hp n hn
      simp only [Caller.takeEntry, List.length_append]
      omega
    outstanding := fun k out => by
      simp only [Caller.takeEntry]
      by_cases hk : k = message.id
      · subst hk
        rw [Function.update_self]
        refine iff_of_false nofun ?_
        rintro ⟨p, hp, hid, -, hsince, hp'⟩
        change (c.takeEntry message).answer p = none at hp'
        rw [hans p hp, if_pos ⟨hsince, hid.symm⟩] at hp'
        simp at hp'
      · rw [Function.update_of_ne hk, h.outstanding]
        refine exists_congr fun p => and_congr_right fun hp => and_congr_right fun hid => ?_
        have hne : ¬(p.since ≠ none ∧ message.id = p.id) := fun hc => hk (hid.symm.trans hc.2.symm)
        have := hans p hp
        rw [if_neg hne, Option.or_none] at this
        change _ ↔ _ ∧ _ ∧ (c.takeEntry message).answer p = none
        rw [this]
    answering := fun a ha => by
      obtain ⟨out, hout, rfl⟩ := takeEntry_answering ha
      obtain ⟨p, hp, hid, hpout, hsince, hp'⟩ := (h.outstanding _ _).mp hout
      refine ⟨p, hp, hpout, ?_⟩
      rw [hans p hp, hp', if_pos ⟨hsince, hid.symm⟩, Option.none_or]
    untouched := fun o ho => h.untouched o fun p hp hpo hh =>
      ho p hp hpo ((h.takeEntry_handled hidle hp).mp hh)
    holds := fun p hp hh m hm => by
      have hh := (h.takeEntry_handled hidle hp).mpr hh
      obtain ⟨m', hm'⟩ := Option.ne_none_iff_exists'.mp hh.1
      obtain rfl := Option.some.inj ((h.takeEntry_kept hp hm').symm.trans hm)
      exact h.holds p hp hh m' hm'
    ran := fun r hr => by
      obtain ⟨p, hp, hd, hh, m, hm, hv⟩ := h.ran r hr
      exact ⟨p, hp, hd, (h.takeEntry_handled hidle hp).mp hh, m, h.takeEntry_kept hp hm, hv⟩
    ran_all := fun p hp hh => h.ran_all p hp ((h.takeEntry_handled hidle hp).mpr hh)
    ran_once := h.ran_once
    freed := fun o ho => by
      obtain ⟨p, hp, hpo, hf⟩ := h.freed o ho
      exact ⟨p, hp, hpo, (h.takeEntry_finished hidle hp).mp hf⟩
    freed_all := fun p hp hf => h.freed_all p hp ((h.takeEntry_finished hidle hp).mpr hf)
    freed_once := h.freed_once }

/-- The response object of the call that is being answered has not been written to, and its
`done` has not run. -/
theorem Sound.fresh (h : Sound pb content c) (ha : c.answering = some a) (hran : a.ran = false)
    (hp : p ∈ c.calls) (hm : c.answer p = some a.message) :
    ¬c.Handled p ∧ c.content p.call.response = content p.call.response := by
  have hnot : ¬c.Handled p := fun hh => by
    have := hh.2 a ha (answer_id hm)
    rw [hran] at this
    exact nomatch this
  refine ⟨hnot, h.untouched _ fun q hq hqo => ?_⟩
  rwa [h.objects q hq p hp hqo]

theorem Sound.runDone_eq (h : Sound pb content c) (ha : c.answering = some a)
    (hran : a.ran = false) (hp : p ∈ c.calls) (hout : p.out = a.out)
    (hm : c.answer p = some a.message) : c.runDone pb = { c with
      content := Function.update c.content p.call.response
        (outcome pb a.message (content p.call.response))
      ran := c.ran ++ p.call.done.toList.map fun d =>
        (d, outcome pb a.message (content p.call.response))
      answering := some { a with ran := true } } := by
  have hobject : a.out.response = p.call.response := by rw [← hout]; rfl
  have hclosure : a.out.done = p.call.done := by rw [← hout]; rfl
  simp only [Caller.runDone, ha, hobject, hclosure, (h.fresh ha hran hp hm).2]

/-- The run of `done` makes the call that is being answered a handled one. -/
theorem runDone_handled (ha : c.answering = some a) (hm : c.answer p = some a.message)
    (honly : a.message.id = q.id → q = p) : (c.runDone pb).Handled q ↔ c.Handled q ∨ q = p := by
  have hstate : (c.runDone pb).answering = some { a with ran := true } := by
    simp only [Caller.runDone, ha]
  have hans : (c.runDone pb).answer q = c.answer q := by
    simp only [Caller.runDone, ha]
    rfl
  rw [Handled, Handled, hans, hstate]
  constructor
  · rintro ⟨hq, -⟩
    by_cases hid : a.message.id = q.id
    · exact .inr (honly hid)
    · refine .inl ⟨hq, fun a' ha' hid' => ?_⟩
      obtain rfl := Option.some.inj (ha.symm.trans ha')
      exact absurd hid' hid
  · rintro (hh | rfl)
    · exact ⟨hh.1, fun a' ha' _ => by cases ha'; rfl⟩
    · rw [hm]
      exact ⟨nofun, fun a' ha' _ => by cases ha'; rfl⟩

theorem runDone_finished (ha : c.answering = some a) :
    (c.runDone pb).Finished q ↔ c.Finished q := by
  have hstate : (c.runDone pb).answering = some { a with ran := true } := by
    simp only [Caller.runDone, ha]
  have hans : (c.runDone pb).answer q = c.answer q := by
    simp only [Caller.runDone, ha]
    rfl
  rw [Finished, Finished, hans, hstate]
  refine and_congr_right fun _ => ⟨fun hq a' ha' => ?_, fun hq a' ha' => ?_⟩
  · obtain rfl := Option.some.inj (ha.symm.trans ha')
    exact hq { a with ran := true } rfl
  · cases ha'
    exact hq a ha

theorem Sound.runDone (h : Sound pb content c) (ha : c.answering = some a) (hran : a.ran = false) :
    Sound pb content (c.runDone pb) := by
  obtain ⟨p, hp, hout, hm, honly⟩ := h.current ha
  have hfresh := (h.fresh ha hran hp hm).1
  have hnext := h.runDone_eq ha hran hp hout hm
  have hnow : ∀ q ∈ c.calls, (c.runDone pb).Handled q ↔ c.Handled q ∨ q = p :=
    fun q hq => runDone_handled ha hm (honly q hq)
  have hdone : ∀ q, (c.runDone pb).Finished q ↔ c.Finished q := fun q => runDone_finished ha
  have hans : ∀ q, (c.runDone pb).answer q = c.answer q := fun q => by rw [hnext]; rfl
  have hcalls : (c.runDone pb).calls = c.calls := by rw [hnext]
  have hfreed : (c.runDone pb).freed = c.freed := by rw [hnext]
  have hother : ∀ q ∈ c.calls, q ≠ p → q.call.response ≠ p.call.response :=
    fun q hq hne hqo => hne (h.objects q hq p hp hqo)
  have hmem : ∀ r, r ∈ (c.runDone pb).ran ↔ r ∈ c.ran ∨
      p.call.done = some r.1 ∧ r.2 = outcome pb a.message (content p.call.response) := by
    intro r
    rw [hnext]
    simp only [List.mem_append, List.mem_map, Option.mem_toList]
    refine or_congr_right ⟨?_, ?_⟩
    · rintro ⟨d, hd, rfl⟩
      exact ⟨hd, rfl⟩
    · rintro ⟨hd, hv⟩
      exact ⟨r.1, hd, by rw [← hv]⟩
  exact {
    ids_le := by rw [hnext]; exact h.ids_le
    ids := by rw [hnext]; exact h.ids
    objects := by rw [hnext]; exact h.objects
    closures := by rw [hnext]; exact h.closures
    since := by rw [hnext]; exact h.since
    outstanding := by rw [hnext]; exact h.outstanding
    answering := fun a' ha' => by
      rw [hnext] at ha'
      cases ha'
      exact ⟨p, by rw [hcalls]; exact hp, hout, by rw [hans]; exact hm⟩
    untouched := fun o ho => by
      have hne : o ≠ p.call.response := fun hpo =>
        ho p (by rw [hcalls]; exact hp) hpo.symm ((hnow p hp).mpr (.inr rfl))
      have hold := h.untouched o fun q hq hqo hh =>
        ho q (by rw [hcalls]; exact hq) hqo ((hnow q hq).mpr (.inl hh))
      rw [hnext]
      exact (Function.update_of_ne hne _ _).trans hold
    holds := fun q hq hh m hq' => by
      rw [hcalls] at hq
      rw [hans] at hq'
      by_cases hqp : q = p
      · subst hqp
        obtain rfl := Option.some.inj (hm.symm.trans hq')
        rw [hnext]
        exact Function.update_self ..
      · have hold := h.holds q hq (((hnow q hq).mp hh).resolve_right hqp) m hq'
        rw [hnext]
        exact (Function.update_of_ne (hother q hq hqp) _ _).trans hold
    ran := fun r hr => by
      rcases (hmem r).mp hr with hr | ⟨hd, hv⟩
      · obtain ⟨q, hq, hd, hh, m, hq', hv⟩ := h.ran r hr
        exact ⟨q, by rw [hcalls]; exact hq, hd, (hnow q hq).mpr (.inl hh), m,
          by rw [hans]; exact hq', hv⟩
      · exact ⟨p, by rw [hcalls]; exact hp, hd, (hnow p hp).mpr (.inr rfl), a.message,
          by rw [hans]; exact hm, hv⟩
    ran_all := fun q hq hh d hd => by
      rw [hcalls] at hq
      rcases (hnow q hq).mp hh with hh | rfl
      · obtain ⟨r, hr, hrd⟩ := List.mem_map.mp (h.ran_all q hq hh d hd)
        exact List.mem_map.mpr ⟨r, (hmem r).mpr (.inl hr), hrd⟩
      · exact List.mem_map.mpr ⟨(d, _), (hmem _).mpr (.inr ⟨hd, rfl⟩), rfl⟩
    ran_once := by
      have hnew : ∀ d ∈ p.call.done.toList, d ∉ c.ran.map Prod.fst := by
        intro d hd hmem
        obtain ⟨r, hr, rfl⟩ := List.mem_map.mp hmem
        obtain ⟨q, hq, hqd, hh, -⟩ := h.ran r hr
        rw [h.closures q hq p hp r.1 hqd (by simpa using hd)] at hh
        exact hfresh hh
      rw [hnext]
      simp only [List.map_append, List.map_map]
      refine List.nodup_append.mpr ⟨h.ran_once, ?_, fun d hd d' hd' hdd => ?_⟩
      · cases p.call.done <;> simp
      · subst hdd
        exact hnew d (by simpa using hd') hd
    freed := fun o ho => by
      rw [hfreed] at ho
      obtain ⟨q, hq, hqo, hf⟩ := h.freed o ho
      exact ⟨q, by rw [hcalls]; exact hq, hqo, (hdone q).mpr hf⟩
    freed_all := fun q hq hf => by
      rw [hfreed]
      exact h.freed_all q (by rw [← hcalls]; exact hq) ((hdone q).mp hf)
    freed_once := by rw [hfreed]; exact h.freed_once }

theorem Sound.finish (h : Sound pb content c) (ha : c.answering = some a) (hran : a.ran = true) :
    Sound pb content c.finish := by
  obtain ⟨p, hp, hout, hm, honly⟩ := h.current ha
  have hobject : a.out.response = p.call.response := by rw [← hout]; rfl
  have hnext : c.finish = { c with freed := c.freed ++ [p.call.response], answering := none } := by
    simp only [Caller.finish, ha, hobject]
  have hfresh : ¬c.Finished p := fun hf => hf.2 a ha (answer_id hm)
  rw [hnext]
  have hnow : ∀ {q}, q ∈ c.calls → ((({ c with
      freed := c.freed ++ [p.call.response], answering := none } : Caller M)).Handled q ↔
        c.Handled q) := by
    intro q hq
    refine and_congr_right fun _ => ⟨fun _ a' ha' _ => ?_, fun _ a' ha' => nomatch ha'⟩
    rw [← Option.some.inj (ha.symm.trans ha')]
    exact hran
  have hdone : ∀ {q}, q ∈ c.calls → ((({ c with
      freed := c.freed ++ [p.call.response], answering := none } : Caller M)).Finished q ↔
        c.Finished q ∨ q = p) := by
    intro q hq
    constructor
    · rintro ⟨hq', -⟩
      by_cases hid : a.message.id = q.id
      · exact .inr (honly q hq hid)
      · refine .inl ⟨hq', fun a' ha' => ?_⟩
        rwa [← Option.some.inj (ha.symm.trans ha')]
    · rintro (hf | rfl)
      · exact ⟨hf.1, fun a' ha' => nomatch ha'⟩
      · exact ⟨by change c.answer q ≠ none; rw [hm]; exact nofun, fun a' ha' => nomatch ha'⟩
  exact {
    ids_le := h.ids_le
    ids := h.ids
    objects := h.objects
    closures := h.closures
    since := h.since
    outstanding := h.outstanding
    answering := fun a' ha' => nomatch ha'
    untouched := fun o ho => h.untouched o fun q hq hqo hh => ho q hq hqo ((hnow hq).mpr hh)
    holds := fun q hq hh => h.holds q hq ((hnow hq).mp hh)
    ran := fun r hr => by
      obtain ⟨q, hq, hd, hh, hrest⟩ := h.ran r hr
      exact ⟨q, hq, hd, (hnow hq).mpr hh, hrest⟩
    ran_all := fun q hq hh => h.ran_all q hq ((hnow hq).mp hh)
    ran_once := h.ran_once
    freed := fun o ho => by
      rcases List.mem_append.mp ho with ho | ho
      · obtain ⟨q, hq, hqo, hf⟩ := h.freed o ho
        exact ⟨q, hq, hqo, (hdone hq).mpr (.inl hf)⟩
      · exact ⟨p, hp, (List.mem_singleton.mp ho).symm, (hdone hp).mpr (.inr rfl)⟩
    freed_all := fun q hq hf => by
      rcases (hdone hq).mp hf with hf | rfl
      · exact List.mem_append_left _ (h.freed_all q hq hf)
      · exact List.mem_append_right _ List.mem_cons_self
    freed_once := by
      refine List.nodup_append.mpr ⟨h.freed_once, by simp, fun o ho o' ho' hoo => ?_⟩
      obtain ⟨q, hq, hqo, hf⟩ := h.freed o ho
      rw [hoo, List.mem_singleton.mp ho'] at hqo
      rw [h.objects q hq p hp hqo] at hf
      exact hfresh hf }

end Muduo.Net.Rpc.Caller
