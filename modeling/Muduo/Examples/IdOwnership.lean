import Muduo.Examples.Multiplexer

namespace Muduo.Examples.Multiplexer
open Muduo.Lib Muduo.Net

variable {κ : Type} {client : κ} {id : Int}

/-- Who has which id: the free ones in the order they will be given out, the client a key leads
to, the id a client carries as its context, and which clients are and were connected. -/
structure Ledger (κ : Type) where
  backend : Bool
  avail : List Int
  owner : Int → Option κ
  context : κ → Option Int
  up : κ → Bool
  seen : κ → Bool

namespace Ledger

def all : List Int := (List.range' 0 maxConns).map Int.ofNat

theorem mem_all : id ∈ all ↔ 0 ≤ id ∧ id < maxConns := by
  simp only [all, List.mem_map, List.mem_range'_1, Nat.zero_add]
  constructor
  · rintro ⟨n, ⟨_, hn⟩, rfl⟩
    exact ⟨Int.natCast_nonneg n, Int.ofNat_lt.mpr hn⟩
  · rintro ⟨h0, h1⟩
    exact ⟨id.toNat, ⟨Nat.zero_le _, by omega⟩, Int.toNat_of_nonneg h0⟩

theorem all_nodup : all.Nodup :=
  List.Nodup.map (fun _ _ h => Int.ofNat.inj h) (List.nodup_range' ..)

/-- A client that has not disconnected owns an id: it is its context, and its key. -/
def Owns (l : Ledger κ) (client : κ) (id : Int) : Prop :=
  l.up client = true ∧ l.context client = some id ∧ l.owner id = some client

/-- Every id is either free, once, or owned by exactly one client; no two clients that are up carry
one id; and a client that goes down finds no other client's entry under its id. -/
structure Owned (l : Ledger κ) : Prop where
  distinct : l.avail.Nodup
  partition : ∀ id ∈ all, Xor (id ∈ l.avail) (∃! client, l.Owns client id)
  apart : ∀ c c' id, l.up c = true → l.up c' = true → l.context c = some id →
    l.context c' = some id → c = c'
  own : ∀ c id, l.up c = true → l.context c = some id →
    l.owner id = none ∨ l.owner id = some c

/-- What holds however ids have been given back. -/
structure Sane (l : Ledger κ) : Prop where
  avail : ∀ id ∈ l.avail, id ∈ all
  contexts : ∀ c id, l.context c = some id → id ∈ all
  keys : ∀ id c, l.owner id = some c → l.up c = true ∧ l.context c = some id
  unseen : ∀ c, l.seen c = false → l.up c = false ∧ l.context c = none
  before : l.backend = false → l.avail = [] ∧ ∀ c, l.context c = none

variable {l : Ledger κ}

/-- Under its key a client is the owner, so an id is owned when it has a key. -/
theorem Sane.owned_iff (h : l.Sane) : (∃! client, l.Owns client id) ↔ ¬l.owner id = none := by
  constructor
  · rintro ⟨client, ⟨_, _, hl⟩, _⟩ hn
    rw [hl] at hn
    cases hn
  · intro hne
    obtain ⟨client, hl⟩ := Option.ne_none_iff_exists'.mp hne
    obtain ⟨hu, hc⟩ := h.keys id client hl
    refine ⟨client, ⟨hu, hc, hl⟩, ?_⟩
    rintro c ⟨_, _, hl'⟩
    rw [hl] at hl'
    exact (Option.some.inj hl').symm

theorem Sane.partition_iff (h : l.Sane) :
    Xor (id ∈ l.avail) (∃! client, l.Owns client id) ↔ (id ∈ l.avail ↔ l.owner id = none) := by
  rw [h.owned_iff, xor_not_right]

/-- The backend takes an id away from its client. -/
def revoke (l : Ledger κ) (id : Int) : Ledger κ :=
  { l with avail := l.avail ++ [id], owner := Function.update l.owner id none }

/-- The backend connects. -/
def fill (l : Ledger κ) : Ledger κ := { l with backend := true, avail := all }

/-- Taking an id from whoever has it. -/
theorem Sane.release (h : l.Sane) {id : Int} (hid : id ∈ all) {up : κ → Bool}
    (hb : l.backend = true) (hup : ∀ c, up c = true → l.up c = true)
    (hkeep : ∀ i c, i ≠ id → l.owner i = some c → up c = true) :
    Sane { l with
      avail := l.avail ++ [id], owner := Function.update l.owner id none, up := up } := by
  refine ⟨fun i hi => ?_, h.contexts, fun i c ho => ?_, fun c hs => ?_, fun hf => ?_⟩
  · rcases List.mem_append.mp hi with hi | hi
    · exact h.avail i hi
    · exact List.mem_singleton.mp hi ▸ hid
  · by_cases hi : i = id
    · subst hi
      simp at ho
    · simp only [Function.update_of_ne hi] at ho
      exact ⟨hkeep i c hi ho, (h.keys i c ho).2⟩
  · obtain ⟨hu, hx⟩ := h.unseen c hs
    exact ⟨Bool.eq_false_iff.mpr fun ht => by simp [hup c ht] at hu, hx⟩
  · simp only at hf
    rw [hb] at hf
    cases hf

theorem Sane.backend (h : l.Sane) {c : κ} {id : Int} (hc : l.context c = some id) :
    l.backend = true := by
  by_contra hb
  have := (h.before (Bool.eq_false_iff.mpr hb)).2 c
  rw [hc] at this
  cases this

/-- Clients that carry no id come and go freely. -/
theorem Owned.reup {l' : Ledger κ} (ho : l.Owned) (h : l.Sane) (h' : l'.Sane)
    (ha : l'.avail = l.avail) (hown : l'.owner = l.owner) (hx : l'.context = l.context)
    (hup : ∀ c id, l'.up c = true → l.context c = some id → l.up c = true) : l'.Owned := by
  refine ⟨ha ▸ ho.distinct, fun id hid => ?_, fun c c' id hu hu' hc hc' => ?_, fun c id hu hc => ?_⟩
  · rw [h'.partition_iff, ha, hown]
    exact h.partition_iff.mp (ho.partition id hid)
  · rw [hx] at hc hc'
    exact ho.apart c c' id (hup c id hu hc) (hup c' id hu' hc') hc hc'
  · rw [hx] at hc
    rw [hown]
    exact ho.own c id (hup c id hu hc) hc

/-- An owned id that is taken from its owner is free again, once. -/
theorem Owned.release {l' : Ledger κ} {id : Int} {c : κ} (ho : l.Owned) (h : l.Sane) (h' : l'.Sane)
    (hid : l.owner id = some c) (ha : l'.avail = l.avail ++ [id])
    (hown : l'.owner = Function.update l.owner id none) :
    l'.avail.Nodup ∧ ∀ i ∈ all, Xor (i ∈ l'.avail) (∃! client, l'.Owns client i) := by
  have hall := h.contexts c id (h.keys id c hid).2
  have hfree : id ∉ l.avail := fun hm => by
    have := (h.partition_iff.mp (ho.partition id hall)).mp hm
    rw [hid] at this
    cases this
  refine ⟨?_, fun i hi => ?_⟩
  · rw [ha]
    exact ho.distinct.append (List.nodup_singleton id) (by simpa using hfree)
  · rw [h'.partition_iff, ha, hown, List.mem_append, List.mem_singleton]
    by_cases he : i = id
    · subst he
      simp
    · rw [Function.update_of_ne he, or_iff_left he]
      exact h.partition_iff.mp (ho.partition i hi)

theorem Owned.revoke {c : κ} {id : Int} (h : l.Sane) (ho : l.Owned) (hid : l.owner id = some c)
    (h' : (l.revoke id).Sane) : (l.revoke id).Owned := by
  obtain ⟨hd, hp⟩ := ho.release h h' hid rfl rfl
  refine ⟨hd, hp, ho.apart, fun c₁ i hu hx => ?_⟩
  by_cases hi : i = id
  · subst hi
    exact .inl (Function.update_self ..)
  · simp only [Ledger.revoke, Function.update_of_ne hi]
    exact ho.own c₁ i hu hx

theorem Sane.fill_owned (h : l.Sane) (hb : l.backend = false) (h' : l.fill.Sane) :
    l.fill.Owned := by
  obtain ⟨_, hnone⟩ := h.before hb
  have hno : ∀ c id, l.context c ≠ some id := fun c id hx => by
    rw [hnone c] at hx
    cases hx
  refine ⟨all_nodup, fun id hid => ?_, fun c _ id _ _ hx => absurd hx (hno c id),
    fun c id _ hx => absurd hx (hno c id)⟩
  rw [h'.partition_iff]
  refine ⟨fun _ => ?_, fun _ => hid⟩
  by_contra hne
  obtain ⟨c, hc⟩ := Option.ne_none_iff_exists'.mp hne
  exact hno c id (h.keys id c hc).2

variable [DecidableEq κ]

/-- A client connects. -/
def connect (l : Ledger κ) (client : κ) : Ledger κ :=
  match l.avail with
  | [] =>
    { l with up := Function.update l.up client true, seen := Function.update l.seen client true }
  | id :: ids =>
    { l with
      avail := ids, owner := Function.update l.owner id (some client)
      context := Function.update l.context client (some id)
      up := Function.update l.up client true, seen := Function.update l.seen client true }

/-- A client disconnects. -/
def disconnect (l : Ledger κ) (client : κ) : Ledger κ :=
  match l.context client with
  | none => { l with up := Function.update l.up client false }
  | some id =>
    { l with
      avail := l.avail ++ [id], owner := Function.update l.owner id none
      up := Function.update l.up client false }

/-- What one step may do to the ids. -/
inductive Move (l : Ledger κ) : Event κ → Ledger κ → Prop
  | connect (c : κ) : l.seen c = false → Move l (.client (.up c)) (l.connect c)
  | disconnect (c : κ) : l.up c = true → Move l (.client (.down c)) (l.disconnect c)
  | message (c : κ) (chunk : Bytes) : Move l (.client (.message c chunk)) l
  | packet (id : Int) (type : UInt8) (text : Bytes) : Move l (.backendPacket id type text) l
  | revoke (id : Int) (type : UInt8) (text : Bytes) (c : κ) : l.backend = true →
      l.owner id = some c → Move l (.backendPacket id type text) (l.revoke id)
  | fill : l.backend = false → Move l .backendUp l.fill

/-- An id comes back once, from the client that owns it, and is not given out while a client
that lost it to the backend is still connected. -/
def Keeps (l : Ledger κ) : Event κ → Prop
  | .client (.up _) => ∀ id, l.avail.head? = some id → ∀ c, l.up c = true → l.context c ≠ some id
  | .client (.down client) => ∀ id, l.context client = some id → l.owner id = some client
  | _ => True

theorem Sane.connect (h : l.Sane) {c : κ} (hc : l.seen c = false) : (l.connect c).Sane := by
  obtain ⟨hup, hctx⟩ := h.unseen c hc
  unfold Ledger.connect
  cases ha : l.avail with
  | nil =>
    refine ⟨nofun, h.contexts, fun id c' ho => ?_, fun c' hs => ?_,
      fun hb => ⟨rfl, (h.before hb).2⟩⟩
    · obtain ⟨hu, hx⟩ := h.keys id c' ho
      refine ⟨?_, hx⟩
      by_cases he : c' = c
      · subst he
        exact Function.update_self ..
      · simpa [he] using hu
    · have hne : c' ≠ c := by
        rintro rfl
        simp at hs
      simp only [Function.update_of_ne hne] at hs ⊢
      exact h.unseen c' hs
  | cons id ids =>
    refine ⟨fun i hi => h.avail i (ha ▸ List.mem_cons_of_mem id hi), fun c' i hx => ?_,
      fun i c' ho => ?_, fun c' hs => ?_, fun hb => ?_⟩
    · by_cases he : c' = c
      · subst he
        simp only [Function.update_self, Option.some.injEq] at hx
        exact hx ▸ h.avail id (ha ▸ List.mem_cons_self)
      · simp only [Function.update_of_ne he] at hx
        exact h.contexts c' i hx
    · by_cases hi : i = id
      · subst hi
        simp only [Function.update_self, Option.some.injEq] at ho
        subst ho
        exact ⟨Function.update_self .., Function.update_self ..⟩
      · simp only [Function.update_of_ne hi] at ho
        obtain ⟨hu, hx⟩ := h.keys i c' ho
        have hne : c' ≠ c := by
          rintro rfl
          rw [hctx] at hx
          cases hx
        simp only [Function.update_of_ne hne]
        exact ⟨hu, hx⟩
    · have hne : c' ≠ c := by
        rintro rfl
        simp at hs
      simp only [Function.update_of_ne hne] at hs ⊢
      exact h.unseen c' hs
    · have hnil := (h.before hb).1
      rw [ha] at hnil
      cases hnil

theorem Sane.disconnect (h : l.Sane) {c : κ} : (l.disconnect c).Sane := by
  have hdown : ∀ c', Function.update l.up c false c' = true → l.up c' = true ∧ c' ≠ c := by
    intro c' hc'
    by_cases he : c' = c
    · subst he
      simp at hc'
    · exact ⟨by simpa [he] using hc', he⟩
  have hother : ∀ i c', l.owner i = some c' → l.context c ≠ some i →
      Function.update l.up c false c' = true := by
    intro i c' ho hx
    obtain ⟨hu, hx'⟩ := h.keys i c' ho
    have hne : c' ≠ c := by
      rintro rfl
      exact hx hx'
    simpa [hne] using hu
  unfold Ledger.disconnect
  cases hc : l.context c with
  | none =>
    refine ⟨h.avail, h.contexts, fun i c' ho => ⟨hother i c' ho (by simp [hc]), (h.keys i c' ho).2⟩,
      fun c' hs => ?_, h.before⟩
    obtain ⟨hu, hx⟩ := h.unseen c' hs
    exact ⟨Bool.eq_false_iff.mpr fun ht => by simp [(hdown c' ht).1] at hu, hx⟩
  | some id =>
    refine h.release (h.contexts c id hc) (h.backend hc) (fun c' hc' => (hdown c' hc').1)
      fun i c' hi ho => hother i c' ho ?_
    rw [hc]
    exact fun he => hi (Option.some.inj he).symm

theorem Sane.move {l' : Ledger κ} {e : Event κ} (h : l.Sane) (hm : Move l e l') : l'.Sane := by
  cases hm with
  | connect c hc => exact h.connect hc
  | disconnect c hc => exact h.disconnect
  | message c chunk => exact h
  | packet id type text => exact h
  | revoke id type text c hb ho =>
    exact h.release (h.contexts c id (h.keys id c ho).2) hb (fun _ hu => hu)
      fun i c' _ ho' => (h.keys i c' ho').1
  | fill hb =>
    exact ⟨fun _ hi => hi, h.contexts, h.keys, h.unseen, nofun⟩

theorem Owned.connect_iff {c : κ} (h : l.Sane) (ho : l.backend = true → l.Owned)
    (hc : l.seen c = false) :
    ((l.connect c).backend = true → (l.connect c).Owned) ↔ l.Keeps (.client (.up c)) := by
  have h' := h.connect hc
  obtain ⟨hup, hctx⟩ := h.unseen c hc
  revert h'
  unfold Ledger.connect Keeps
  cases ha : l.avail with
  | nil =>
    refine fun h' => ⟨fun _ => nofun, fun _ hb => ?_⟩
    refine (ho hb).reup h h' ha.symm rfl rfl fun c' id hu hx => ?_
    have hne : c' ≠ c := by
      rintro rfl
      rw [hctx] at hx
      cases hx
    simpa [hne] using hu
  | cons id ids =>
    intro h'
    have hb : l.backend = true := by
      by_contra hb
      have := (h.before (Bool.eq_false_iff.mpr hb)).1
      rw [ha] at this
      cases this
    have ho := ho hb
    have hnodup := ha ▸ ho.distinct
    simp only [List.head?_cons, Option.some.injEq, forall_eq']
    constructor
    · intro hall c' hu hx
      have hne : c' ≠ c := by
        rintro rfl
        rw [hup] at hu
        cases hu
      have hown := (hall hb).own c' id (by simpa [hne] using hu) (by simpa [hne] using hx)
      simp [Ne.symm hne] at hown
    · intro hk _
      refine ⟨(List.nodup_cons.mp hnodup).2, fun i hi => ?_, fun c₁ c₂ i hu₁ hu₂ hx₁ hx₂ => ?_,
        fun c₁ i hu hx => ?_⟩
      · rw [h'.partition_iff]
        by_cases he : i = id
        · subst he
          simpa using (List.nodup_cons.mp hnodup).1
        · have := h.partition_iff.mp (ho.partition i hi)
          simpa [ha, he] using this
      · by_cases he₁ : c₁ = c <;> by_cases he₂ : c₂ = c
        · rw [he₁, he₂]
        · subst he₁
          simp only [Function.update_self, Option.some.injEq, Function.update_of_ne he₂] at hx₁ hu₂ hx₂
          exact absurd (hx₁ ▸ hx₂) (hk c₂ hu₂)
        · subst he₂
          simp only [Function.update_self, Option.some.injEq, Function.update_of_ne he₁] at hx₂ hu₁ hx₁
          exact absurd (hx₂ ▸ hx₁) (hk c₁ hu₁)
        · simp only [Function.update_of_ne he₁, Function.update_of_ne he₂] at hu₁ hu₂ hx₁ hx₂
          exact ho.apart c₁ c₂ i hu₁ hu₂ hx₁ hx₂
      · by_cases he : c₁ = c
        · subst he
          simp only [Function.update_self, Option.some.injEq] at hx
          subst hx
          exact .inr (Function.update_self ..)
        · simp only [Function.update_of_ne he] at hu hx
          have hi : i ≠ id := by
            rintro rfl
            exact hk c₁ hu hx
          simp only [Function.update_of_ne hi]
          exact ho.own c₁ i hu hx

theorem Owned.disconnect_iff {c : κ} (h : l.Sane) (ho : l.backend = true → l.Owned)
    (hc : l.up c = true) :
    ((l.disconnect c).backend = true → (l.disconnect c).Owned) ↔ l.Keeps (.client (.down c)) := by
  have h' := h.disconnect (c := c)
  have hup : ∀ c', Function.update l.up c false c' = true → l.up c' = true ∧ c' ≠ c := by
    intro c' hc'
    by_cases he : c' = c
    · subst he
      simp at hc'
    · exact ⟨by simpa [he] using hc', he⟩
  revert h'
  unfold Ledger.disconnect Keeps
  cases hx : l.context c with
  | none =>
    refine fun h' => ⟨fun _ id he => ?_, fun _ hb => ?_⟩
    · rw [hx] at he
      cases he
    · exact (ho hb).reup h h' rfl rfl rfl fun c' id hu _ => (hup c' hu).1
  | some id =>
    intro h'
    have hb := h.backend hx
    have ho := ho hb
    simp only [hx, Option.some.injEq, forall_eq']
    constructor
    · intro hall
      refine (ho.own c id hc hx).resolve_left fun hn => ?_
      have hmem := (h.partition_iff.mp (ho.partition id (h.contexts c id hx))).mpr hn
      have hd := (hall hb).distinct
      exact (List.nodup_append.mp hd).2.2 id hmem id (List.mem_singleton_self id) rfl
    · intro hown _
      obtain ⟨hd, hp⟩ := ho.release h h' hown rfl rfl
      refine ⟨hd, hp, fun c₁ c₂ i hu₁ hu₂ => ho.apart c₁ c₂ i (hup c₁ hu₁).1 (hup c₂ hu₂).1,
        fun c₁ i hu hx₁ => ?_⟩
      obtain ⟨hu₁, hne⟩ := hup c₁ hu
      have hi : i ≠ id := by
        rintro rfl
        exact hne (ho.apart c₁ c i hu₁ hc hx₁ hx)
      simp only [Function.update_of_ne hi]
      exact ho.own c₁ i hu₁ hx₁

/-- One move keeps the ids owned exactly when it meets `Keeps`. -/
theorem Owned.move_iff {l' : Ledger κ} {e : Event κ} (h : l.Sane)
    (ho : l.backend = true → l.Owned) (hm : Move l e l') :
    (l'.backend = true → l'.Owned) ↔ l.Keeps e := by
  have h' := h.move hm
  cases hm with
  | connect c hc => exact Owned.connect_iff h ho hc
  | disconnect c hc => exact Owned.disconnect_iff h ho hc
  | message c chunk => exact ⟨fun _ => trivial, fun _ => ho⟩
  | packet id type text => exact ⟨fun _ => trivial, fun _ => ho⟩
  | revoke id type text c hb hid => exact ⟨fun _ => trivial, fun _ _ => (ho hb).revoke h hid h'⟩
  | fill hb => exact ⟨fun _ => trivial, fun _ _ => h.fill_owned hb h'⟩

end Ledger

variable {m m' : Multiplexer κ}

/-- The bookkeeping of ids is the same. -/
structure SameIds (m m' : Multiplexer κ) : Prop where
  backend : m'.backendConnection = m.backendConnection
  connections : m'.clientConnections = m.clientConnections
  avail : m'.availIds = m.availIds
  context : m'.context = m.context

theorem SameIds.refl (m : Multiplexer κ) : SameIds m m := ⟨rfl, rfl, rfl, rfl⟩

theorem SameIds.trans {m'' : Multiplexer κ} (h : SameIds m m') (h' : SameIds m' m'') :
    SameIds m m'' :=
  ⟨h'.backend.trans h.backend, h'.connections.trans h.connections, h'.avail.trans h.avail,
    h'.context.trans h.context⟩

theorem upText_length (id : Int) (peer : Bytes) : (upText id peer).length ≤ 255 :=
  List.length_take_le _ _

theorem downText_length (id : Int) (peer : Bytes) : (downText id peer).length ≤ 255 :=
  List.length_take_le _ _

theorem lookup_insert (l : AList fun _ : Int => κ) (id : Int) (client : κ) :
    (fun i => (l.insert id client).lookup i) =
      Function.update (fun i => l.lookup i) id (some client) := by
  funext i
  by_cases hi : i = id
  · subst hi
    simp
  · simp [hi]

theorem lookup_erase (l : AList fun _ : Int => κ) (id : Int) :
    (fun i => (l.erase id).lookup i) = Function.update (fun i => l.lookup i) id none := by
  funext i
  by_cases hi : i = id
  · subst hi
    simp
  · simp [hi]

theorem sendBackendPacket_same {buff : Bytes}
    (h : m.sendBackendPacket client id buff = .ok m') : SameIds m m' := by
  unfold sendBackendPacket at h
  by_cases hl : buff.length ≤ maxPacketLen
  · simp only [check_pos hl, ok_bind] at h
    split at h
    · cases h
      exact ⟨rfl, rfl, rfl, rfl⟩
    · cases h
      exact .refl m
  · simp only [check_neg hl, error_bind] at h
    cases h

/-- A packet that is short enough is sent. -/
theorem sendBackendPacket_returns {buff : Bytes} (hl : buff.length ≤ maxPacketLen) :
    ∃ m', m.sendBackendPacket client id buff = .ok m' ∧ SameIds m m' := by
  have hr : ∃ m', m.sendBackendPacket client id buff = .ok m' := by
    unfold sendBackendPacket
    simp only [check_pos hl, ok_bind]
    split
    · exact ⟨_, rfl⟩
    · exact ⟨_, rfl⟩
  obtain ⟨m', hm⟩ := hr
  exact ⟨m', hm, sendBackendPacket_same hm⟩

/-- The announcements of clients always are. -/
theorem sendBackendString_returns (m : Multiplexer κ) (client : κ) (id : Int) (type : UInt8)
    {text : Bytes} (hl : text.length ≤ 255) :
    ∃ m', m.sendBackendString client id type text = .ok m' ∧ SameIds m m' := by
  refine sendBackendPacket_returns ?_
  rw [List.length_cons]
  unfold maxPacketLen
  omega

theorem sendMessage_same {buff rest : Bytes}
    (h : m.sendMessage client id buff = .ok (m', rest)) : SameIds m m' := by
  fun_induction sendMessage m client id buff with
  | case1 m buff hl ih =>
    obtain ⟨m₁, hm, hrest⟩ := bind_ok h
    exact (sendBackendPacket_same hm).trans (ih m₁ hrest)
  | case2 m buff hl hpos =>
    obtain ⟨m₁, hm, hrest⟩ := bind_ok h
    cases hrest
    exact sendBackendPacket_same hm
  | case3 m buff hl hpos =>
    cases h
    exact .refl _

theorem onClientMessage_same {buff rest : Bytes}
    (h : m.onClientMessage client buff = .ok (m', rest)) : SameIds m m' := by
  unfold onClientMessage at h
  split at h
  · exact sendMessage_same h
  · cases h
    exact .refl _

/-- A packet of the backend leaves the ids alone or takes one away from its client. -/
theorem sendClientString_ids (m : Multiplexer κ) (id : Int) (type : UInt8) (text : Bytes) :
    SameIds m (m.sendClientString id type text) ∨
      ∃ client, m.clientConnections.lookup id = some client ∧
        (m.sendClientString id type text).backendConnection = m.backendConnection ∧
        (m.sendClientString id type text).availIds = m.availIds ++ [id] ∧
        (m.sendClientString id type text).context = m.context ∧
        (m.sendClientString id type text).clientConnections = m.clientConnections.erase id := by
  unfold sendClientString
  split
  · split
    · exact .inl ⟨rfl, rfl, rfl, rfl⟩
    · exact .inl (.refl m)
  · split
    · split
      · rename_i client hl
        exact .inr ⟨client, hl, rfl, rfl, rfl, rfl⟩
      · exact .inl (.refl m)
    · exact .inl (.refl m)

/-- A client disconnects: its id, if it has one, goes back to the queue. -/
theorem onClientDown_returns (client : κ) (peer : Bytes)
    (hids : ∀ id, m.context client = some id → id ∈ Ledger.all) :
    ∃ m', m.onClientDown client peer = .ok m' ∧
      ((m.context client = none ∧ SameIds m m') ∨
        ∃ id, m.context client = some id ∧ m'.backendConnection = m.backendConnection ∧
          m'.availIds = m.availIds ++ [id] ∧ m'.context = m.context ∧
          m'.clientConnections = m.clientConnections.erase id) := by
  unfold onClientDown
  cases hc : m.context client with
  | none => exact ⟨m, rfl, .inl ⟨rfl, .refl m⟩⟩
  | some id =>
    obtain ⟨m', hm, hs⟩ := sendBackendString_returns m client id ClientType.disconn
      (downText_length id peer)
    simp only [check_pos (Ledger.mem_all.mp (hids id hc)), ok_bind, hm]
    refine ⟨_, rfl, .inr ⟨id, rfl, hs.backend, ?_, hs.context, ?_⟩⟩
    · rw [← hs.avail]
    · rw [← hs.connections]

variable [DecidableEq κ]

/-- A client connects: it is refused, or given the id at the front of the queue. -/
theorem onClientUp_returns (client : κ) (peer : Bytes) (hids : ∀ id ∈ m.availIds, id ∈ Ledger.all) :
    ∃ m', m.onClientUp client peer = .ok m' ∧
      ((m.availIds = [] ∧ SameIds m m') ∨
        ∃ id, m.availIds = id :: m'.availIds ∧ m'.backendConnection = m.backendConnection ∧
          m'.clientConnections = m.clientConnections.insert id client ∧
          m'.context = Function.update m.context client (some id)) := by
  unfold onClientUp
  cases ha : m.availIds with
  | nil => exact ⟨_, rfl, .inl ⟨rfl, ⟨rfl, rfl, ha.symm ▸ rfl, rfl⟩⟩⟩
  | cons id ids =>
    have hid : ¬id < 0 := by
      have := Ledger.mem_all.mp (hids id (ha ▸ List.mem_cons_self))
      omega
    simp only [if_neg hid]
    obtain ⟨m', hm, hs⟩ := sendBackendString_returns { m with
        availIds := ids, clientConnections := m.clientConnections.insert id client
        context := Function.update m.context client (some id) }
      client id ClientType.conn (upText_length id peer)
    exact ⟨m', hm, .inr ⟨id, by rw [hs.avail], hs.backend, hs.connections, hs.context⟩⟩

namespace System

variable {s t : System κ} {peer : κ → Bytes} {e : Event κ}

/-- The ids in a state of the multiplexer and its clients. -/
def ledger (s : System κ) : Ledger κ where
  backend := s.mux.backendConnection
  avail := s.mux.availIds
  owner id := s.mux.clientConnections.lookup id
  context := s.mux.context
  up := s.up
  seen := s.seen

/-- A client that connects or disconnects is always dealt with. -/
theorem step_up (peer : κ → Bytes) (h : s.ledger.Sane) (c : κ) :
    ∃ t, s.step peer (.client (.up c)) = .ok t ∧ t.ledger = s.ledger.connect c := by
  obtain ⟨mux, hm, hcase⟩ := onClientUp_returns c (peer c) h.avail
  simp only [step, clientStep, hm, ok_bind]
  refine ⟨_, rfl, ?_⟩
  rcases hcase with ⟨hnil, hs⟩ | ⟨id, hcons, hb, hc, hx⟩
  · have ha : s.ledger.avail = [] := hnil
    rw [Ledger.connect, ha]
    simp only [ledger, hs.backend, hs.connections, hs.avail, hs.context, hnil]
  · have ha : s.ledger.avail = id :: mux.availIds := hcons
    rw [Ledger.connect, ha]
    simp only [ledger, hb, hc, hx, lookup_insert]

theorem step_down (peer : κ → Bytes) (h : s.ledger.Sane) (c : κ) :
    ∃ t, s.step peer (.client (.down c)) = .ok t ∧ t.ledger = s.ledger.disconnect c := by
  obtain ⟨mux, hm, hcase⟩ := onClientDown_returns c (peer c) (h.contexts c)
  simp only [step, clientStep, hm, ok_bind]
  refine ⟨_, rfl, ?_⟩
  rcases hcase with ⟨hnone, hs⟩ | ⟨id, hsome, hb, ha, hx, hc⟩
  · have hx : s.ledger.context c = none := hnone
    rw [Ledger.disconnect, hx]
    simp only [ledger, hs.backend, hs.connections, hs.avail, hs.context]
  · have hx' : s.ledger.context c = some id := hsome
    rw [Ledger.disconnect, hx']
    simp only [ledger, hb, ha, hc, hx, lookup_erase]

/-- Every step of the multiplexer is a move of the ledger. -/
theorem step_moves (h : s.ledger.Sane) (he : s.enabled e) (ht : s.step peer e = .ok t) :
    s.ledger.Move e t.ledger := by
  cases e with
  | client e =>
    cases e with
    | up c =>
      obtain ⟨u, hu, hl⟩ := step_up peer h c
      rw [hu] at ht
      cases ht
      exact hl ▸ .connect c he
    | message c chunk =>
      simp only [step, clientStep] at ht
      obtain ⟨⟨mux, rest⟩, hm, hr⟩ := bind_ok ht
      cases hr
      have hs := onClientMessage_same hm
      have hl : ({ s with mux := mux, input := Function.update s.input c rest } : System κ).ledger =
          s.ledger := by
        simp only [ledger, hs.backend, hs.connections, hs.avail, hs.context]
      exact hl ▸ .message c chunk
    | down c =>
      obtain ⟨u, hu, hl⟩ := step_down peer h c
      rw [hu] at ht
      cases ht
      exact hl ▸ .disconnect c he
  | backendUp =>
    simp only [step, onBackendConnection] at ht
    have hnil := (h.before he).1
    rw [check_pos (show s.mux.availIds = [] from hnil)] at ht
    cases ht
    exact .fill he
  | backendPacket id type text =>
    cases ht
    rcases sendClientString_ids s.mux id type text with hs | ⟨c, hl, hb, ha, hx, hc⟩
    · have hl : ({ s with mux := s.mux.sendClientString id type text } : System κ).ledger =
          s.ledger := by
        simp only [ledger, hs.backend, hs.connections, hs.avail, hs.context]
      exact hl ▸ .packet id type text
    · have hl' : ({ s with mux := s.mux.sendClientString id type text } : System κ).ledger =
          s.ledger.revoke id := by
        simp only [ledger, Ledger.revoke, hb, ha, hx, hc, lookup_erase]
      exact hl' ▸ .revoke id type text c he hl

/-- While the backend is connected, every id is free once or owned by exactly one client. -/
def IdsOwned (s : System κ) : Prop := s.mux.backendConnection = true → s.ledger.Owned

/-- The step leaves the ids with their owners, as the ledger before it tells. -/
def KeepsIds (s : System κ) (e : Event κ) : Prop := s.ledger.Keeps e

omit [DecidableEq κ] in
theorem new_sane : (new : System κ).ledger.Sane :=
  ⟨nofun, nofun, nofun, fun _ _ => ⟨rfl, rfl⟩, fun _ => ⟨rfl, fun _ => rfl⟩⟩

/-- In any run of the multiplexer the ids stay owned from one state to the next exactly as
long as every client that disconnects still has its entry in `clientConnections_`, and no id
is given out while another client that is connected carries it. -/
theorem ids_owned_iff {es : List (Event κ)}
    (hl : (machine peer).Legal (fun _ _ => True) new es) :
    (∀ fs t, fs <+: es → (machine peer).run new fs = .ok t → t.IdsOwned) ↔
      (machine peer).Legal KeepsIds new es := by
  refine (Machine.Legal.iff_run (I := fun s : System κ => s.ledger.Sane) (G := IdsOwned)
    (fun s e h ho he => ⟨fun t ht => ?_, fun f hf => ?_⟩) new_sane nofun hl).symm
  · have hm := step_moves h he ht
    exact ⟨h.move hm, Ledger.Owned.move_iff h ho hm⟩
  · -- only a client's message can fail
    cases e with
    | client e =>
      cases e with
      | up c =>
        obtain ⟨u, hu, _⟩ := step_up peer h c
        exact nomatch hu.symm.trans hf
      | message c chunk => trivial
      | down c =>
        obtain ⟨u, hu, _⟩ := step_down peer h c
        exact nomatch hu.symm.trans hf
    | backendUp => trivial
    | backendPacket id type text => trivial

def samplePeer : Unit → Bytes := fun _ => ascii "192.168.1.7:5000"

/-- A client that comes and goes, with a message from the backend in between. -/
def sampleVisit : List (Event Unit) :=
  [.backendUp, .client (.up ()), .backendPacket 0 ClientType.msg [104, 105], .client (.down ())]

theorem ids_owned_iff_sample :
    (machine samplePeer).Legal (fun _ _ => True) new sampleVisit ∧
      ((∀ fs t, fs <+: sampleVisit → (machine samplePeer).run new fs = .ok t → t.IdsOwned) ↔
        (machine samplePeer).Legal KeepsIds new sampleVisit) := by
  have hl : (machine samplePeer).Legal (fun _ _ => True) new sampleVisit := by decide +kernel
  exact ⟨hl, ids_owned_iff hl⟩

/-- The backend disconnects client 0; the close of its connection arrives later. -/
def freedTwice : List (Event Unit) :=
  [.backendUp, .client (.up ()), .backendPacket 0 ClientType.disconn [], .client (.down ())]

theorem freedTwice_avail :
    ((machine samplePeer).run new freedTwice).map (fun t => (t.mux.backendConnection, t.mux.availIds)) =
      .ok (true, (List.range' 1 65534).map Int.ofNat ++ [0] ++ [0]) := by
  rfl

theorem id_comes_back_twice :
    ¬∀ es : List (Event Unit), (machine samplePeer).Legal (fun _ _ => True) new es →
      ∀ fs t, fs <+: es → (machine samplePeer).run new fs = .ok t → t.IdsOwned := by
  intro h
  have hl : (machine samplePeer).Legal (fun _ _ => True) new freedTwice := by decide +kernel
  have ha := freedTwice_avail
  cases hr : (machine samplePeer).run new freedTwice with
  | error f =>
    rw [hr] at ha
    cases ha
  | ok t =>
    rw [hr] at ha
    obtain ⟨hb, ha⟩ := Prod.mk.inj (Except.ok.inj ha)
    have hd : t.mux.availIds.Nodup := (h freedTwice hl freedTwice t (List.prefix_refl _) hr hb).distinct
    rw [ha] at hd
    exact (List.nodup_append.mp hd).2.2 0 (by simp) 0 (by simp) rfl

end System

end Muduo.Examples.Multiplexer
