import Mathlib.Data.List.Nodup
import Mathlib.Logic.Function.Basic

namespace Muduo.Lib

variable {L M : Type}

/-- Messages that arrive at some of the nodes and are run on each of the sinks. A node passes the
message it is at to one sink after the other: to itself it runs it at once, to any other it puts it
at the end of a queue. -/
structure FanOut (L M : Type) where
  sinks : List L
  received : List M
  runs : L → List M
  queue : L → List M
  current : L → Option (M × List L)

namespace FanOut

variable [DecidableEq L] (f : FanOut L M)

/-- A message arrives at the node `a`. -/
def receive (a : L) (m : M) : FanOut L M :=
  { f with
    received := f.received ++ [m]
    current := Function.update f.current a (some (m, f.sinks)) }

/-- The node `a` runs the message it is at. -/
def runHere (a : L) (m : M) (rest : List L) : FanOut L M :=
  { f with
    runs := Function.update f.runs a (f.runs a ++ [m])
    current := Function.update f.current a (some (m, rest)) }

/-- The node `a` passes the message it is at to `l`. -/
def pass (a l : L) (m : M) (rest : List L) : FanOut L M :=
  { f with
    queue := Function.update f.queue l (f.queue l ++ [m])
    current := Function.update f.current a (some (m, rest)) }

/-- The node `a` is through with its message. -/
def finish (a : L) : FanOut L M := { f with current := Function.update f.current a none }

/-- The sink `l` runs the first message of its queue. -/
def runQueued (l : L) (m : M) (rest : List M) : FanOut L M :=
  { f with
    runs := Function.update f.runs l (f.runs l ++ [m])
    queue := Function.update f.queue l rest }

/-- The message that the node `a` has still to pass to `l`. -/
def toCome (a l : L) : List M :=
  match f.current a with
  | none => []
  | some (m, rest) => if l ∈ rest then [m] else []

/-- The messages of one source on their way to a sink, the first one first, are those that arrived
there. -/
structure Flow (source : M → L) (f : FanOut L M) : Prop where
  sinks : f.sinks.Nodup
  flow : ∀ a, ∀ l ∈ f.sinks,
    (f.runs l ++ f.queue l).filter (fun m => source m = a) ++ f.toCome a l =
      f.received.filter fun m => source m = a
  passed : ∀ l m, m ∈ f.queue l → source m ≠ l
  current : ∀ a m rest, f.current a = some (m, rest) → source m = a ∧ rest.Nodup

variable {f} {source : M → L} {a b l : L} {m : M} {rest : List L}

theorem toCome_none (h : f.current a = none) (l : L) : f.toCome a l = [] := by
  unfold toCome
  rw [h]

theorem toCome_some (h : f.current a = some (m, rest)) (l : L) :
    f.toCome a l = if l ∈ rest then [m] else [] := by
  unfold toCome
  rw [h]

theorem toCome_congr {g : FanOut L M} (h : g.current a = f.current a) (l : L) :
    g.toCome a l = f.toCome a l := by
  unfold toCome
  rw [h]

theorem filter_one (source : M → L) (m : M) (a : L) :
    [m].filter (fun m' => source m' = a) = if source m = a then [m] else [] := by
  simp only [List.filter_cons, List.filter_nil, decide_eq_true_eq]

theorem initial_flow {sinks : List L} (h : sinks.Nodup) :
    Flow source ⟨sinks, [], fun _ => [], fun _ => [], fun _ => none⟩ :=
  ⟨h, fun _ _ _ => rfl, nofun, nofun⟩

/-- A node gets on with a message of its own. -/
theorem Flow.current_update (h : f.Flow source) (hm : source m = a) (hn : rest.Nodup) {m' : M}
    {rest' : List L} (hc : Function.update f.current a (some (m, rest)) b = some (m', rest')) :
    source m' = b ∧ rest'.Nodup := by
  by_cases hb : b = a
  · rw [hb, Function.update_self] at hc
    cases hc
    exact ⟨hm.trans hb.symm, hn⟩
  · rw [Function.update_of_ne hb] at hc
    exact h.current b m' rest' hc

theorem Flow.receive (h : f.Flow source) (hm : source m = a) (ha : f.current a = none) :
    (f.receive a m).Flow source := by
  refine ⟨h.sinks, fun b l hl => ?_, h.passed, fun b m' rest => h.current_update hm h.sinks⟩
  have hflow := h.flow b l hl
  have hgrown : (f.receive a m).received.filter (fun m' => source m' = b) =
      f.received.filter (fun m' => source m' = b) ++ if source m = b then [m] else [] := by
    rw [← filter_one, ← List.filter_append]
    rfl
  rw [hgrown, ← hflow]
  change (f.runs l ++ f.queue l).filter _ ++ _ = _
  by_cases hb : b = a
  · subst hb
    have hcurrent : (f.receive b m).current b = some (m, f.sinks) := Function.update_self ..
    have hsink : l ∈ f.sinks := hl
    rw [toCome_none ha, toCome_some hcurrent, if_pos hsink, if_pos hm, List.append_nil]
  · have hother : (f.receive a m).current b = f.current b := Function.update_of_ne hb ..
    have hne : ¬source m = b := fun he => hb (he.symm.trans hm)
    rw [toCome_congr hother, if_neg hne, List.append_nil]

theorem Flow.finish (h : f.Flow source) (ha : f.current a = some (m, [])) :
    (f.finish a).Flow source := by
  refine ⟨h.sinks, fun b l hl => ?_, h.passed, fun b m' rest hc => ?_⟩
  · have hflow := h.flow b l hl
    change (f.runs l ++ f.queue l).filter _ ++ _ = f.received.filter _
    rw [← hflow]
    by_cases hb : b = a
    · subst hb
      have hcurrent : (f.finish b).current b = none := Function.update_self ..
      rw [toCome_some ha, toCome_none hcurrent, if_neg List.not_mem_nil]
    · have hother : (f.finish a).current b = f.current b := Function.update_of_ne hb ..
      rw [toCome_congr hother]
  · change Function.update _ _ _ b = _ at hc
    by_cases hb : b = a
    · rw [hb, Function.update_self] at hc
      cases hc
    · rw [Function.update_of_ne hb] at hc
      exact h.current b m' rest hc

/-- The node `a` puts its message where the sink `l` runs it. -/
theorem Flow.advance {g : FanOut L M} (h : f.Flow source) (ha : f.current a = some (m, l :: rest))
    (hsinks : g.sinks = f.sinks) (hreceived : g.received = f.received)
    (hcurrent : g.current = Function.update f.current a (some (m, rest)))
    (hother : ∀ k, k ≠ l → g.runs k ++ g.queue k = f.runs k ++ f.queue k)
    (hlast : ∀ b, (g.runs l ++ g.queue l).filter (fun m' => source m' = b) =
      (f.runs l ++ f.queue l).filter (fun m' => source m' = b) ++
        if source m = b then [m] else [])
    (hpassed : ∀ k m', m' ∈ g.queue k → source m' ≠ k) : g.Flow source := by
  obtain ⟨hm, hn⟩ := h.current _ _ _ ha
  obtain ⟨hnew, hrest⟩ := List.nodup_cons.mp hn
  refine ⟨hsinks ▸ h.sinks, fun b k hk => ?_, hpassed, fun b m' rest' hc => ?_⟩
  · rw [hreceived, ← h.flow b k (hsinks ▸ hk)]
    by_cases hb : b = a
    · subst hb
      have hnext : g.current b = some (m, rest) := by rw [hcurrent, Function.update_self]
      rw [toCome_some ha, toCome_some hnext]
      by_cases hkl : k = l
      · subst hkl
        rw [hlast, if_pos hm, if_neg hnew, if_pos List.mem_cons_self, List.append_nil]
      · rw [hother k hkl]
        simp only [List.mem_cons, hkl, false_or]
    · have hsame : g.current b = f.current b := by rw [hcurrent, Function.update_of_ne hb]
      rw [toCome_congr hsame]
      by_cases hkl : k = l
      · have hne : ¬source m = b := fun he => hb (he.symm.trans hm)
        rw [hkl, hlast, if_neg hne, List.append_nil]
      · rw [hother k hkl]
  · rw [hcurrent] at hc
    exact h.current_update hm hrest hc

theorem Flow.runHere (h : f.Flow source) (ha : f.current a = some (m, a :: rest)) :
    (f.runHere a m rest).Flow source := by
  refine h.advance ha rfl rfl rfl (fun k hk => ?_) (fun b => ?_) h.passed
  · change Function.update f.runs a (f.runs a ++ [m]) k ++ f.queue k = _
    rw [Function.update_of_ne hk]
  · change (Function.update f.runs a (f.runs a ++ [m]) a ++ f.queue a).filter _ = _
    simp only [Function.update_self, List.filter_append, filter_one, List.append_assoc]
    split
    · rename_i hb
      -- no message of its own waits in the queue of a node
      have hown : (f.queue a).filter (fun m' => source m' = b) = [] := by
        rw [List.filter_eq_nil_iff]
        intro m' hm'
        have hne := h.passed a m' hm'
        rw [← (h.current _ _ _ ha).1, hb] at hne
        simpa using hne
      rw [hown]
      rfl
    · rw [List.nil_append, List.append_nil]

theorem Flow.pass (h : f.Flow source) (ha : f.current a = some (m, l :: rest)) (hl : l ≠ a) :
    (f.pass a l m rest).Flow source := by
  refine h.advance ha rfl rfl rfl (fun k hk => ?_) (fun b => ?_) (fun k m' hm' => ?_)
  · change f.runs k ++ Function.update f.queue l (f.queue l ++ [m]) k = _
    rw [Function.update_of_ne hk]
  · change (f.runs l ++ Function.update f.queue l (f.queue l ++ [m]) l).filter _ = _
    rw [Function.update_self, ← List.append_assoc, List.filter_append, filter_one]
  · change m' ∈ Function.update f.queue l (f.queue l ++ [m]) k at hm'
    by_cases hk : k = l
    · rw [hk, Function.update_self] at hm'
      rcases List.mem_append.mp hm' with hold | hnew
      · exact hk ▸ h.passed l m' hold
      · rw [List.mem_singleton.mp hnew, (h.current _ _ _ ha).1, hk]
        exact hl.symm
    · rw [Function.update_of_ne hk] at hm'
      exact h.passed k m' hm'

theorem Flow.runQueued {queue : List M} (h : f.Flow source) (hl : f.queue l = m :: queue) :
    (f.runQueued l m queue).Flow source := by
  refine ⟨h.sinks, fun b k hk => ?_, fun k m' hm' => ?_, h.current⟩
  · rw [toCome_congr (show (f.runQueued l m queue).current b = f.current b from rfl)]
    change (Function.update f.runs l (f.runs l ++ [m]) k ++
      Function.update f.queue l queue k).filter _ ++ _ = f.received.filter _
    rw [← h.flow b k hk]
    by_cases hkl : k = l
    · rw [hkl, Function.update_self, Function.update_self, hl, List.append_assoc]
      rfl
    · rw [Function.update_of_ne hkl, Function.update_of_ne hkl]
  · change m' ∈ Function.update f.queue l queue k at hm'
    by_cases hkl : k = l
    · rw [hkl, Function.update_self] at hm'
      exact h.passed k m' (by rw [hkl, hl]; exact List.mem_cons_of_mem m hm')
    · rw [Function.update_of_ne hkl] at hm'
      exact h.passed k m' hm'

/-- A sink has run the messages of one source in the order in which they arrived there. -/
theorem Flow.in_order (h : f.Flow source) (hl : l ∈ f.sinks) (a : L) :
    (f.runs l).filter (fun m => source m = a) <+: f.received.filter fun m => source m = a := by
  rw [← h.flow a l hl, List.filter_append, List.append_assoc]
  exact List.prefix_append _ _

theorem Flow.runs_received (h : f.Flow source) (hl : l ∈ f.sinks) (hm : m ∈ f.runs l) :
    m ∈ f.received := by
  have hmem : m ∈ (f.runs l).filter fun m' => source m' = source m :=
    List.mem_filter.mpr ⟨hm, by simp⟩
  exact (List.mem_filter.mp ((h.in_order hl _).subset hmem)).1

variable [DecidableEq M]

/-- Every message that has arrived is, for each sink, run once, queued once or still to come. -/
theorem Flow.once (h : f.Flow source) (hn : f.received.Nodup) (hl : l ∈ f.sinks)
    (hm : m ∈ f.received) :
    (f.runs l).count m + (f.queue l).count m + (f.toCome (source m) l).count m = 1 := by
  have hone : (f.received.filter fun m' => source m' = source m).count m = 1 := by
    rw [List.count_filter (by simp)]
    exact List.count_eq_one_of_mem hn hm
  rw [← h.flow (source m) l hl, List.count_append, List.count_filter (by simp),
    List.count_append] at hone
  exact hone

theorem Flow.runs_nodup (h : f.Flow source) (hn : f.received.Nodup) (hl : l ∈ f.sinks) :
    (f.runs l).Nodup := by
  rw [List.nodup_iff_count_le_one]
  intro m
  by_cases hm : m ∈ f.runs l
  · have := h.once hn hl (h.runs_received hl hm)
    omega
  · rw [List.count_eq_zero.mpr hm]
    omega

end FanOut

end Muduo.Lib
