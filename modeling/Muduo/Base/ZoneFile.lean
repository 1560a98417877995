import Muduo.Base.TimeZone

namespace Muduo.Base
open Muduo.Lib Muduo.Net

namespace ZoneFile

variable (file : Bytes)

def int32At (n : Nat) : Int := peekInt32 ((file.drop n).take 4)

def uint8At (n : Nat) : Nat := BigEndian.decode ((file.drop n).take 1)

def timecnt : Int := int32At file 32
def typecnt : Int := int32At file 36
def charcnt : Int := int32At file 40

/-- The offsets of the tables behind the 44 bytes of the header. -/
def indexTable : Nat := 44 + 4 * (timecnt file).toNat
def typeTable : Nat := indexTable file + (timecnt file).toNat
def abbreviationTable : Nat := typeTable file + 6 * (typecnt file).toNat

def abbreviation : Bytes := (file.drop (abbreviationTable file)).take (charcnt file).toNat

def indexAt (i : Nat) : Nat := uint8At file (indexTable file + i)

/-- An entry of the table of types, `n` bytes into the file. -/
def localtimeAt (n : Nat) : Localtime :=
  ⟨int32At file n, uint8At file (n + 4) ≠ 0, uint8At file (n + 5)⟩

/-- The file is not cut short before the end of the abbreviations, names at least one type, and
refers only to types and abbreviations that it holds. -/
structure WellFormed : Prop where
  head : file.take 4 = ascii "TZif"
  timecnt : 0 ≤ timecnt file
  typecnt : 0 < typecnt file
  charcnt : 0 ≤ charcnt file
  length : abbreviationTable file + (ZoneFile.charcnt file).toNat ≤ file.length
  index : ∀ i < (ZoneFile.timecnt file).toNat, indexAt file i < (ZoneFile.typecnt file).toNat
  designation : ∀ i < (ZoneFile.typecnt file).toNat,
    uint8At file (typeTable file + 6 * i + 5) < (ZoneFile.charcnt file).toNat

/-- The tables have as many entries as the header announces, with what the file holds, and every
type has its abbreviation. -/
structure Complete (d : Data) : Prop where
  head : file.take 4 = ascii "TZif"
  timecnt : (d.transitions.length : Int) = timecnt file
  typecnt : (d.localtimes.length : Int) = typecnt file
  charcnt : (d.abbreviation.length : Int) = charcnt file
  transitions : ∀ i tr, d.transitions[i]? = some tr →
    tr.gmttime = int32At file (44 + 4 * i) ∧ tr.localtimeIdx = indexAt file i
  localtimes : ∀ i l, d.localtimes[i]? = some l → l = localtimeAt file (typeTable file + 6 * i)
  abbreviation : d.abbreviation = abbreviation file
  designation : ∀ l ∈ d.localtimes, l.arrbIdx < d.abbreviation.length

/-- Loading is all-or-nothing: it does not fault, a time zone that is valid then holds all that
the file says, and converts every time. -/
def AllOrNothing (zonefile : Option Bytes) : Prop :=
  ∃ z, TimeZone.ofFile zonefile = .ok z ∧ ∀ d, z.data_ = some d →
    (∃ file, zonefile = some file ∧ Complete file d) ∧
    ∀ cal, (∀ seconds, ∃ tm, z.toLocalTime cal seconds = .ok tm) ∧
      ∀ tm, ∃ seconds, z.fromLocalTime cal tm = .ok seconds

end ZoneFile

namespace Reading

variable {α β : Type} {m : Reading α} {k : α → Reading β} {s s' : Bytes × Data} {a : α}
  {e : Thrown}

/-- How reading ends, and what is left then. -/
def outcome (m : Reading α) (s : Bytes × Data) : Except Thrown α × Bytes × Data := m.run.run s

theorem outcome_bind (h : m.outcome s = (.ok a, s')) : (m >>= k).outcome s = (k a).outcome s' := by
  simp only [outcome] at h ⊢
  rw [ExceptT.run_bind, StateT.run_bind, h]
  rfl

theorem outcome_bind_error (h : m.outcome s = (.error e, s')) :
    (m >>= k).outcome s = (.error e, s') := by
  simp only [outcome] at h ⊢
  rw [ExceptT.run_bind, StateT.run_bind, h]
  rfl

theorem outcome_pure : (pure a : Reading α).outcome s = (.ok a, s) := rfl

theorem outcome_get : (get : Reading _).outcome s = (.ok s, s) := rfl

theorem outcome_set : (set s' : Reading PUnit).outcome s = (.ok ⟨⟩, s') := rfl

theorem outcome_modify (f : Bytes × Data → Bytes × Data) :
    (modify f : Reading PUnit).outcome s = (.ok ⟨⟩, f s) := rfl

end Reading

namespace ZoneFile
open Reading

variable {file : Bytes} {α β : Type} {read : Reading α} {w : Nat} {f : Nat → α}

/-- `read` takes `w` bytes of the file for the value `f` has at their offset, or throws, and
leaves the data alone. -/
structure Field (file : Bytes) (read : Reading α) (w : Nat) (f : Nat → α) : Prop where
  reads : ∀ n d, n + w ≤ file.length →
    read.outcome (file.drop n, d) = (.ok (f n), file.drop (n + w), d)
  fails : ∀ n d, n ≤ file.length → file.length < n + w →
    ∃ what rest, read.outcome (file.drop n, d) = (.error (.logicError what), rest, d)

theorem fread_field (w : Nat) (what : String) :
    Field file (File.fread w what) w fun n => (file.drop n).take w where
  reads n d h := by
    have hlt : ¬(file.drop n).length < w := by
      rw [List.length_drop]
      omega
    rw [File.fread, outcome_bind outcome_get]
    simp only [if_neg hlt]
    rw [outcome_bind outcome_set, List.drop_drop]
    rfl
  fails n d hn h := by
    have hlt : (file.drop n).length < w := by
      rw [List.length_drop]
      omega
    rw [File.fread, outcome_bind outcome_get]
    simp only [if_pos hlt]
    exact ⟨what, file.drop n, rfl⟩

theorem readBytes_field {w : Int} (h : 0 ≤ w) :
    Field file (File.readBytes w) w.toNat fun n => (file.drop n).take w.toNat := by
  have hneg : ¬w < 0 := by omega
  rw [File.readBytes, if_neg hneg]
  exact fread_field w.toNat _

/-- The value that is returned may be worked out from the bytes. -/
theorem Field.map (h : Field file read w f) (g : α → β) :
    Field file (read >>= fun a => pure (g a)) w fun n => g (f n) where
  reads n d hn := by rw [outcome_bind (h.reads n d hn), outcome_pure]
  fails n d hn hw := by
    obtain ⟨what, rest, hfail⟩ := h.fails n d hn hw
    exact ⟨what, rest, outcome_bind_error hfail⟩

theorem readInt32_field : Field file File.readInt32 4 (int32At file) :=
  (fread_field 4 _).map peekInt32

theorem readUInt8_field : Field file File.readUInt8 1 (uint8At file) :=
  (fread_field 1 _).map BigEndian.decode

theorem Field.seq {w' : Nat} {k : α → Reading β} {g : α → Nat → β} (h : Field file read w f)
    (hk : ∀ a, Field file (k a) w' (g a)) :
    Field file (read >>= k) (w + w') fun n => g (f n) (n + w) where
  reads n d hn := by
    rw [outcome_bind (h.reads n d (by omega)), (hk _).reads (n + w) d (by omega), Nat.add_assoc]
  fails n d hn hw := by
    by_cases hone : file.length < n + w
    · obtain ⟨what, rest, hfail⟩ := h.fails n d hn hone
      exact ⟨what, rest, outcome_bind_error hfail⟩
    · obtain ⟨what, rest, hfail⟩ := (hk (f n)).fails (n + w) d (by omega) (by omega)
      exact ⟨what, rest, by rw [outcome_bind (h.reads n d (by omega)), hfail]⟩

theorem Field.repeated (h : Field file read w f) (k : Nat) :
    Field file (repeated k read) (w * k) fun n => (List.range k).map fun i => f (n + w * i) := by
  induction k with
  | zero => exact ⟨fun n d hn => rfl, fun n d hn hw => by omega⟩
  | succ k ih =>
    have hall := h.seq fun a => ih.map (a :: ·)
    have hlen : w + w * k = w * (k + 1) := by rw [Nat.mul_succ, Nat.add_comm]
    have hnext : ∀ n i, n + w + w * i = n + w * (i + 1) := fun n i => by
      rw [Nat.mul_succ]
      omega
    simp only [hlen, hnext] at hall
    simp only [List.range_succ_eq_map, List.map_cons, List.map_map, Function.comp_def,
      Nat.succ_eq_add_one, Nat.mul_zero, Nat.add_zero]
    exact hall

/-- What changes the data comes after the field has been read. -/
theorem Field.before {k : α → Reading β} {n : Nat} {d d' : Data} {r : Except Thrown β}
    {rest : Bytes} (h : Field file read w f) (hn : n ≤ file.length)
    (hrun : (read >>= k).outcome (file.drop n, d) = (r, rest, d')) (hd : d' ≠ d) :
    n + w ≤ file.length ∧ (k (f n)).outcome (file.drop (n + w), d) = (r, rest, d') := by
  by_cases hw : n + w ≤ file.length
  · rw [outcome_bind (h.reads n d hw)] at hrun
    exact ⟨hw, hrun⟩
  · obtain ⟨what, left, hfail⟩ := h.fails n d hn (by omega)
    rw [outcome_bind_error hfail] at hrun
    exact absurd (congrArg (fun x => x.2.2) hrun).symm hd

/-- The fields of an entry of the table of types. -/
def ttinfo : Reading Localtime := do
  let gmtoff ← File.readInt32
  let isdst ← File.readUInt8
  let abbrind ← File.readUInt8
  return ⟨gmtoff, isdst ≠ 0, abbrind⟩

theorem ttinfo_field : Field file ttinfo 6 (localtimeAt file) :=
  readInt32_field.seq fun _ => readUInt8_field.seq fun _ => readUInt8_field.map _

/-- The types in the order of the file, `n` bytes into it. -/
def pushLocaltimes (file : Bytes) (d : Data) (n : Nat) : Nat → Data
  | 0 => d
  | k + 1 => pushLocaltimes file (d.pushLocaltime (localtimeAt file n)) (n + 6) k

theorem readLocaltime_eq : readLocaltime = ttinfo >>= fun l =>
    modify fun (file, data) => (file, data.pushLocaltime l) := by
  simp only [readLocaltime, ttinfo, bind_assoc, pure_bind]

theorem readLocaltime_reads {n : Nat} (d : Data) (h : n + 6 ≤ file.length) :
    readLocaltime.outcome (file.drop n, d) =
      (.ok (), file.drop (n + 6), d.pushLocaltime (localtimeAt file n)) := by
  rw [readLocaltime_eq, outcome_bind (ttinfo_field.reads n d h), outcome_modify]

theorem readLocaltime_fails {n : Nat} (d : Data) (hn : n ≤ file.length)
    (h : file.length < n + 6) : ∃ what rest,
      readLocaltime.outcome (file.drop n, d) = (.error (.logicError what), rest, d) := by
  obtain ⟨what, rest, hfail⟩ := ttinfo_field.fails n d hn h
  refine ⟨what, rest, ?_⟩
  rw [readLocaltime_eq]
  exact outcome_bind_error hfail

theorem pushLocaltimes_transitions (d : Data) (n k : Nat) :
    (pushLocaltimes file d n k).transitions = d.transitions := by
  induction k generalizing d n with
  | zero => rfl
  | succ k ih => exact ih _ _

theorem pushLocaltimes_abbreviation (d : Data) (n k : Nat) :
    (pushLocaltimes file d n k).abbreviation = d.abbreviation := by
  induction k generalizing d n with
  | zero => rfl
  | succ k ih => exact ih _ _

theorem pushLocaltimes_localtimes (d : Data) (n k : Nat) :
    (pushLocaltimes file d n k).localtimes =
      d.localtimes ++ (List.range k).map fun i => localtimeAt file (n + 6 * i) := by
  induction k generalizing d n with
  | zero => simp [pushLocaltimes]
  | succ k ih =>
    have hnext : ∀ i, n + 6 + 6 * i = n + 6 * (i + 1) := fun i => by omega
    rw [pushLocaltimes, ih, Data.pushLocaltime, List.append_assoc, List.singleton_append,
      List.range_succ_eq_map, List.map_cons, List.map_map]
    simp only [hnext, Function.comp_def, Nat.succ_eq_add_one, Nat.mul_zero, Nat.add_zero]

theorem readLocaltimes (file : Bytes) (d : Data) {n k : Nat} (h : n + 6 * k ≤ file.length) :
    ∃ units, (repeated k readLocaltime).outcome (file.drop n, d) =
      (.ok units, file.drop (n + 6 * k), pushLocaltimes file d n k) := by
  induction k generalizing d n with
  | zero => exact ⟨[], rfl⟩
  | succ k ih =>
    obtain ⟨units, hrest⟩ := ih (d.pushLocaltime (localtimeAt file n)) (n := n + 6) (by omega)
    have hlen : n + 6 + 6 * k = n + 6 * (k + 1) := by omega
    rw [hlen] at hrest
    refine ⟨() :: units, ?_⟩
    rw [Base.repeated, outcome_bind (readLocaltime_reads d (by omega)), outcome_bind hrest]
    rfl

/-- A table of types that is cut short leaves fewer of them. -/
theorem readLocaltimes_short (file : Bytes) (d : Data) {n k : Nat} (hn : n ≤ file.length)
    (h : file.length < n + 6 * k) : ∃ what rest, ∃ j < k,
      (repeated k readLocaltime).outcome (file.drop n, d) =
        (.error (.logicError what), rest, pushLocaltimes file d n j) := by
  induction k generalizing d n with
  | zero => omega
  | succ k ih =>
    rw [Base.repeated]
    by_cases hone : file.length < n + 6
    · obtain ⟨what, rest, hfail⟩ := readLocaltime_fails d hn hone
      exact ⟨what, rest, 0, by omega, outcome_bind_error hfail⟩
    · obtain ⟨what, rest, j, hj, hfail⟩ :=
        ih (d.pushLocaltime (localtimeAt file n)) (n := n + 6) (by omega) (by omega)
      refine ⟨what, rest, j + 1, by omega, ?_⟩
      rw [outcome_bind (readLocaltime_reads d (by omega))]
      exact outcome_bind_error hfail

/-- What a transition has from the file. -/
def stored (tr : Transition) : Int × Nat := (tr.gmttime, tr.localtimeIdx)

/-- The transitions have been added, and nothing else. -/
structure Adds (entries : List (Int × Nat)) (d d' : Data) : Prop where
  localtimes : d'.localtimes = d.localtimes
  abbreviation : d'.abbreviation = d.abbreviation
  transitions : d'.transitions.map stored = d.transitions.map stored ++ entries

theorem addTransition_reads {b : Bytes} {d : Data} {t : Int} {localIdx : Nat}
    (h : localIdx < d.localtimes.length) :
    ∃ d', (addTransition t localIdx).outcome (b, d) = (.ok (), b, d') ∧
      Adds [(t, localIdx)] d d' := by
  have hpush : ∃ d', d.pushTransition t localIdx = .ok d' ∧ Adds [(t, localIdx)] d d' := by
    unfold Data.pushTransition
    split
    · rename_i hnone
      rw [List.getElem?_eq_getElem h] at hnone
      exact nomatch hnone
    · exact ⟨_, rfl, rfl, rfl, List.map_append⟩
  obtain ⟨d', hd', hadds⟩ := hpush
  refine ⟨d', ?_, hadds⟩
  rw [addTransition, outcome_bind outcome_get]
  simp only [hd']
  rfl

theorem addTransition_faults {b : Bytes} {d : Data} {t : Int} {localIdx : Nat}
    (h : d.localtimes.length ≤ localIdx) :
    (addTransition t localIdx).outcome (b, d) = (.error (.fault .outOfBounds), b, d) := by
  have hpush : d.pushTransition t localIdx = .error .outOfBounds := by
    unfold Data.pushTransition
    split
    · rfl
    · rename_i hsome
      rw [List.getElem?_eq_none h] at hsome
      exact nomatch hsome
  rw [addTransition, outcome_bind outcome_get]
  simp only [hpush]
  rfl

def addTransitions (entries : List (Int × Nat)) : Reading Unit :=
  entries.forM fun (t, localIdx) => addTransition t localIdx

theorem addTransitions_reads {b : Bytes} {d : Data} {entries : List (Int × Nat)}
    (h : ∀ entry ∈ entries, entry.2 < d.localtimes.length) :
    ∃ d', (addTransitions entries).outcome (b, d) = (.ok (), b, d') ∧ Adds entries d d' := by
  induction entries generalizing d with
  | nil => exact ⟨d, rfl, rfl, rfl, (List.append_nil _).symm⟩
  | cons entry entries ih =>
    obtain ⟨d₁, hone, hadd⟩ := addTransition_reads (b := b) (t := entry.1)
      (h entry List.mem_cons_self)
    obtain ⟨d₂, hrest, hadds⟩ := ih (d := d₁) fun e he => by
      rw [hadd.localtimes]
      exact h e (List.mem_cons_of_mem _ he)
    refine ⟨d₂, (outcome_bind hone).trans hrest, hadds.localtimes.trans hadd.localtimes,
      hadds.abbreviation.trans hadd.abbreviation, ?_⟩
    rw [hadds.transitions, hadd.transitions, List.append_assoc]
    rfl

theorem addTransitions_faults {b : Bytes} {d : Data} {entries : List (Int × Nat)}
    (h : ∃ entry ∈ entries, d.localtimes.length ≤ entry.2) :
    ∃ s, (addTransitions entries).outcome (b, d) = (.error (.fault .outOfBounds), s) := by
  induction entries generalizing d with
  | nil =>
    obtain ⟨entry, hmem, -⟩ := h
    exact nomatch hmem
  | cons entry entries ih =>
    by_cases hone : d.localtimes.length ≤ entry.2
    · exact ⟨_, outcome_bind_error (addTransition_faults hone)⟩
    · obtain ⟨d₁, hread, hadd⟩ := addTransition_reads (b := b) (t := entry.1)
        (Nat.lt_of_not_le hone)
      obtain ⟨bad, hmem, hbad⟩ := h
      cases hmem with
      | head => exact absurd hbad hone
      | tail _ hmem =>
        obtain ⟨s, hrest⟩ := ih (d := d₁) ⟨bad, hmem, by rwa [hadd.localtimes]⟩
        exact ⟨s, (outcome_bind hread).trans hrest⟩

/-- What follows the table of indices. -/
def readTail (entries : List (Int × Nat)) (typecnt charcnt : Int) : Reading Unit := do
  let _ ← repeated typecnt.toNat readLocaltime
  addTransitions entries
  let abbreviation ← File.readBytes charcnt
  modify fun (file, data) => (file, data.setAbbreviation abbreviation)

/-- The transitions as the file has them. -/
def entries (file : Bytes) : List (Int × Nat) :=
  (List.range (timecnt file).toNat).map fun i => (int32At file (44 + 4 * i), indexAt file i)

/-- The rest of the header: `timecnt`, `typecnt` and `charcnt`. -/
def counts : Reading (Int × Int × Int) := do
  let _version ← File.readBytes 1
  let _ ← File.readBytes 15
  let _isgmtcnt ← File.readInt32
  let _isstdcnt ← File.readInt32
  let _leapcnt ← File.readInt32
  let timecnt ← File.readInt32
  let typecnt ← File.readInt32
  let charcnt ← File.readInt32
  return (timecnt, typecnt, charcnt)

theorem counts_field : Field file counts 40 fun n =>
    (int32At file (n + 28), int32At file (n + 32), int32At file (n + 36)) :=
  (readBytes_field (by decide)).seq fun _ => (readBytes_field (by decide)).seq fun _ =>
    readInt32_field.seq fun _ => readInt32_field.seq fun _ => readInt32_field.seq fun _ =>
      readInt32_field.seq fun _ => readInt32_field.seq fun _ => readInt32_field.map _

/-- The tables of the times and of the indices. -/
def transitionTables (k : Nat) : Reading (List (Int × Nat)) := do
  let trans ← repeated k File.readInt32
  let localtimes ← repeated k File.readUInt8
  return trans.zip localtimes

theorem transitionTables_field (k : Nat) : Field file (transitionTables k) (4 * k + k) fun n =>
    (List.range k).map fun i => (int32At file (n + 4 * i), uint8At file (n + 4 * k + i)) := by
  have hint : Field file File.readInt32 4 (int32At file) := readInt32_field
  have h := (hint.repeated k).seq fun trans => (readUInt8_field.repeated k).map (trans.zip ·)
  simp only [List.zip_map', Nat.one_mul] at h
  exact h

theorem readZone_eq : readZone = (do
    let head ← File.readBytes 4
    if head ≠ ascii "TZif" then throw (.logicError "bad head")
    else
      let (timecnt, typecnt, charcnt) ← counts
      if timecnt < 0 then throw (.logicError "vector::reserve")
      else
        let entries ← transitionTables timecnt.toNat
        readTail entries typecnt charcnt) := by
  simp only [counts, transitionTables, bind_assoc, pure_bind]
  rfl

/-- A file with its header and the tables of the transitions. -/
structure Begun (file : Bytes) : Prop where
  head : file.take 4 = ascii "TZif"
  timecnt : 0 ≤ timecnt file
  length : typeTable file ≤ file.length

theorem head_field : Field file (File.readBytes 4) 4 fun n => (file.drop n).take 4 :=
  readBytes_field (by decide)

theorem entries_field : Field file (transitionTables (timecnt file).toNat)
    (4 * (timecnt file).toNat + (timecnt file).toNat) fun n => (List.range (timecnt file).toNat).map
      fun i => (int32At file (n + 4 * i), uint8At file (n + 4 * (timecnt file).toNat + i)) :=
  transitionTables_field _

theorem typeTable_eq (file : Bytes) :
    44 + (4 * (timecnt file).toNat + (timecnt file).toNat) = typeTable file := by
  rw [typeTable, indexTable, Nat.add_assoc]

theorem Begun.reads (h : Begun file) (d : Data) : readZone.outcome (file, d) =
    (readTail (entries file) (typecnt file) (charcnt file)).outcome
      (file.drop (typeTable file), d) := by
  have hlen := h.length
  rw [← typeTable_eq] at hlen
  have hneg : ¬ZoneFile.timecnt file < 0 := by
    have := h.timecnt
    omega
  have hstart : (file, d) = (file.drop 0, d) := rfl
  rw [readZone_eq, hstart, outcome_bind (head_field.reads 0 d (by omega)), List.drop_zero,
    if_neg (not_not.mpr h.head), outcome_bind (counts_field.reads 4 d (by omega))]
  change (if ZoneFile.timecnt file < 0 then _ else _ : Reading Unit).outcome _ = _
  rw [if_neg hneg]
  exact outcome_bind (typeTable_eq file ▸ entries_field.reads 44 d (by omega))

theorem begun_of_changed {r : Except Thrown Unit} {rest : Bytes} {d d' : Data}
    (hrun : readZone.outcome (file, d) = (r, rest, d')) (hd : d' ≠ d) : Begun file := by
  have hstart : (file, d) = (file.drop 0, d) := rfl
  rw [readZone_eq, hstart] at hrun
  obtain ⟨hfour, hrun⟩ := head_field.before (Nat.zero_le _) hrun hd
  by_cases hhead : file.take 4 = ascii "TZif"
  · rw [List.drop_zero, if_neg (not_not.mpr hhead)] at hrun
    obtain ⟨hcounts, hrun⟩ := counts_field.before hfour hrun hd
    change (if ZoneFile.timecnt file < 0 then _ else _ : Reading Unit).outcome _ = _ at hrun
    by_cases hneg : ZoneFile.timecnt file < 0
    · rw [if_pos hneg] at hrun
      exact absurd (congrArg (fun x => x.2.2) hrun).symm hd
    · rw [if_neg hneg] at hrun
      obtain ⟨htables, -⟩ := entries_field.before hcounts hrun hd
      exact ⟨hhead, by omega, typeTable_eq file ▸ htables⟩
  · rw [List.drop_zero, if_pos hhead] at hrun
    exact absurd (congrArg (fun x => x.2.2) hrun).symm hd

/-- The data after the table of types. -/
def typed (file : Bytes) : Data :=
  pushLocaltimes file .empty (typeTable file) (typecnt file).toNat

theorem typed_localtimes : (typed file).localtimes =
    (List.range (typecnt file).toNat).map fun i => localtimeAt file (typeTable file + 6 * i) := by
  rw [typed, pushLocaltimes_localtimes]
  rfl

theorem readTail_typed (h : abbreviationTable file ≤ file.length) (es : List (Int × Nat)) :
    (readTail es (typecnt file) (charcnt file)).outcome (file.drop (typeTable file), .empty) =
      (do
        addTransitions es
        let abbreviation ← File.readBytes (charcnt file)
        modify fun (file, data) => (file, data.setAbbreviation abbreviation) :
          Reading Unit).outcome (file.drop (abbreviationTable file), typed file) := by
  obtain ⟨units, hread⟩ := readLocaltimes file .empty (n := typeTable file)
    (k := (typecnt file).toNat) h
  rw [readTail, outcome_bind hread]
  rfl

theorem readTimeZoneFile_of_outcome {rest : Bytes} {d : Data}
    (h : readZone.outcome (file, .empty) = (.ok (), rest, d)) :
    readTimeZoneFile (some file) = .ok d := by
  simp only [outcome] at h
  simp only [readTimeZoneFile, h]

theorem outcome_of_readTimeZoneFile {d : Data} (h : readTimeZoneFile (some file) = .ok d) :
    ∃ r rest, readZone.outcome (file, .empty) = (r, rest, d) ∧ ∀ f, r ≠ .error (.fault f) := by
  simp only [readTimeZoneFile] at h
  simp only [outcome]
  match hrun : readZone.run.run (file, .empty) with
  | (.error (.fault f), _) => simp [hrun] at h
  | (.error (.logicError what), rest, d') =>
    simp only [hrun, Except.ok.injEq] at h
    exact ⟨.error (.logicError what), rest, by rw [h], nofun⟩
  | (.ok (), rest, d') =>
    simp only [hrun, Except.ok.injEq] at h
    exact ⟨.ok (), rest, by rw [h], nofun⟩

theorem WellFormed.begun (h : WellFormed file) : Begun file := by
  refine ⟨h.head, h.timecnt, ?_⟩
  have hlen := h.length
  unfold abbreviationTable at hlen
  omega

theorem entries_getElem {i : Nat} {entry : Int × Nat} (h : (entries file)[i]? = some entry) :
    i < (timecnt file).toNat ∧ entry = (int32At file (44 + 4 * i), indexAt file i) := by
  obtain ⟨hlt, rfl⟩ := List.getElem?_eq_some_iff.mp h
  rw [entries, List.length_map, List.length_range] at hlt
  refine ⟨hlt, ?_⟩
  simp only [entries, List.getElem_map, List.getElem_range]

theorem abbreviation_reads (hcnt : 0 ≤ charcnt file) (d : Data)
    (h : abbreviationTable file + (charcnt file).toNat ≤ file.length) :
    (File.readBytes (charcnt file)).outcome (file.drop (abbreviationTable file), d) =
      (.ok (abbreviation file), file.drop (abbreviationTable file + (charcnt file).toNat), d) :=
  (readBytes_field hcnt).reads (abbreviationTable file) d h

theorem typed_length (file : Bytes) : (typed file).localtimes.length = (typecnt file).toNat := by
  rw [typed_localtimes, List.length_map, List.length_range]

theorem typed_getElem {i : Nat} {l : Localtime} (h : (typed file).localtimes[i]? = some l) :
    i < (typecnt file).toNat ∧ l = localtimeAt file (typeTable file + 6 * i) := by
  obtain ⟨hlt, rfl⟩ := List.getElem?_eq_some_iff.mp h
  refine ⟨typed_length file ▸ hlt, ?_⟩
  simp only [typed_localtimes, List.getElem_map, List.getElem_range]

theorem Adds.stored_eq {d : Data} (h : Adds (entries file) (typed file) d) :
    d.transitions.map stored = entries file := by
  rw [h.transitions, typed, pushLocaltimes_transitions]
  rfl

/-- The tables of a well-formed file are complete once they are read. -/
theorem WellFormed.complete (h : WellFormed file) {d : Data}
    (hadds : Adds (entries file) (typed file) d) :
    Complete file (d.setAbbreviation (abbreviation file)) := by
  have htimes := h.timecnt
  have htypes := h.typecnt
  have hchars := h.charcnt
  have hlen := h.length
  have hstored := hadds.stored_eq
  have hcount : d.transitions.length = (ZoneFile.timecnt file).toNat := by
    have hlength := congrArg List.length hstored
    rwa [List.length_map, entries, List.length_map, List.length_range] at hlength
  have hlocal : d.localtimes.length = (ZoneFile.typecnt file).toNat := by
    rw [hadds.localtimes, typed_length]
  have habbr : (abbreviation file).length = (ZoneFile.charcnt file).toNat := by
    rw [abbreviation, List.length_take, List.length_drop]
    omega
  refine ⟨h.head, ?_, ?_, ?_, fun i tr htr => ?_, fun i l hl => ?_, rfl, fun l hl => ?_⟩
  · change (d.transitions.length : Int) = _
    omega
  · change (d.localtimes.length : Int) = _
    omega
  · change ((abbreviation file).length : Int) = _
    omega
  · have hentry : (entries file)[i]? = some (stored tr) := by
      rw [← hstored, List.getElem?_map]
      exact congrArg (Option.map stored) htr
    exact Prod.mk.inj (entries_getElem hentry).2
  · change d.localtimes[i]? = some l at hl
    rw [hadds.localtimes] at hl
    exact (typed_getElem hl).2
  · change l ∈ d.localtimes at hl
    rw [hadds.localtimes] at hl
    obtain ⟨i, hi⟩ := List.mem_iff_getElem?.mp hl
    obtain ⟨hlt, rfl⟩ := typed_getElem hi
    exact habbr ▸ h.designation i hlt

theorem WellFormed.loads (h : WellFormed file) :
    ∃ d, readTimeZoneFile (some file) = .ok d ∧ Complete file d := by
  have hlen := h.length
  have hindex : ∀ entry ∈ entries file, entry.2 < (typed file).localtimes.length := by
    intro entry hmem
    obtain ⟨i, hi⟩ := List.mem_iff_getElem?.mp hmem
    obtain ⟨hlt, rfl⟩ := entries_getElem hi
    rw [typed_length]
    exact h.index i hlt
  obtain ⟨d, hadd, hadds⟩ := addTransitions_reads (b := file.drop (abbreviationTable file)) hindex
  have hrun : readZone.outcome (file, .empty) = (.ok (),
      file.drop (abbreviationTable file + (ZoneFile.charcnt file).toNat),
      d.setAbbreviation (abbreviation file)) := by
    rw [h.begun.reads, readTail_typed (by omega), outcome_bind hadd,
      outcome_bind (abbreviation_reads h.charcnt d hlen), outcome_modify]
  exact ⟨_, readTimeZoneFile_of_outcome hrun, h.complete hadds⟩

/-- Data that are complete and name a type come from a well-formed file: what makes reading stop
short also leaves a table shorter than the header announces. -/
theorem Complete.wellFormed {d : Data} (h : Complete file d)
    (hread : readTimeZoneFile (some file) = .ok d) (hd : d.localtimes ≠ []) : WellFormed file := by
  obtain ⟨r, rest, hrun, hfault⟩ := outcome_of_readTimeZoneFile hread
  have htimes := h.timecnt
  have htypes := h.typecnt
  have hchars := h.charcnt
  have hpos := List.length_pos_iff.mpr hd
  have hne : d ≠ .empty := by
    rintro rfl
    exact hd rfl
  have hbegun := begun_of_changed hrun hne
  rw [hbegun.reads] at hrun
  have htable : abbreviationTable file ≤ file.length := by
    by_contra hshort
    obtain ⟨what, left, j, hj, hfail⟩ := readLocaltimes_short file .empty hbegun.length
      (k := (ZoneFile.typecnt file).toNat) (Nat.lt_of_not_le hshort)
    rw [readTail, outcome_bind_error hfail] at hrun
    have hcut := congrArg (fun x => x.2.2.localtimes.length) hrun
    simp only [pushLocaltimes_localtimes, Data.empty, List.nil_append, List.length_map,
      List.length_range] at hcut
    omega
  rw [readTail_typed htable] at hrun
  have hindex : ∀ entry ∈ entries file, entry.2 < (typed file).localtimes.length := by
    by_contra hbad
    push Not at hbad
    obtain ⟨s, hfail⟩ := addTransitions_faults (b := file.drop (abbreviationTable file)) hbad
    rw [outcome_bind_error hfail] at hrun
    exact hfault _ (congrArg Prod.fst hrun).symm
  obtain ⟨d', hadd, hadds⟩ := addTransitions_reads (b := file.drop (abbreviationTable file)) hindex
  rw [outcome_bind hadd] at hrun
  have hlen : abbreviationTable file + (ZoneFile.charcnt file).toNat ≤ file.length := by
    by_contra hshort
    have hfield : Field file (File.readBytes (ZoneFile.charcnt file)) _ _ :=
      readBytes_field (by omega)
    obtain ⟨what, left, hfail⟩ := hfield.fails _ d' htable (Nat.lt_of_not_le hshort)
    rw [outcome_bind_error hfail] at hrun
    have hcut : d'.abbreviation = d.abbreviation := congrArg (fun x => x.2.2.abbreviation) hrun
    rw [hadds.abbreviation, typed, pushLocaltimes_abbreviation] at hcut
    rw [← hcut] at hchars
    change (0 : Int) = _ at hchars
    omega
  refine ⟨h.head, by omega, by omega, by omega, hlen, fun i hi => ?_, fun i hi => ?_⟩
  · rw [← typed_length]
    exact hindex _ (List.mem_map.mpr ⟨i, List.mem_range.mpr hi, rfl⟩)
  · obtain ⟨l, hl⟩ : ∃ l, d.localtimes[i]? = some l :=
      ⟨_, List.getElem?_eq_getElem (by omega)⟩
    have hin := h.designation l (List.mem_of_getElem? hl)
    rw [h.localtimes i l hl] at hin
    change uint8At file (typeTable file + 6 * i + 5) < _ at hin
    omega

end ZoneFile

namespace Data

theorem transitions_nil {d : Data} (h : d.localtimes = []) : d.transitions = [] := by
  rw [List.eq_nil_iff_forall_not_mem]
  intro tr htr
  obtain ⟨l, hl, -⟩ := d.indexed tr htr
  rw [h] at hl
  exact nomatch hl

theorem local?_returns {d : Data} {tr : Transition} (h : tr ∈ d.transitions) :
    ∃ l, d.local? tr = .ok l := by
  obtain ⟨l, hl, -⟩ := d.indexed tr h
  exact ⟨l, by simp only [local?, hl]⟩

/-- The position at which the search of `findLocaltime` ends. -/
def search (d : Data) (sentry : Transition) (comp : Comp) : Nat :=
  lowerBound (fun i => d.transitions[i]?.any (comp.less · sentry)) 0 d.transitions.length

theorem findLocaltime_search {d : Data} {sentry : Transition} {comp : Comp}
    (hhead : ¬d.transitions.head?.all (comp.less sentry) = true) :
    findLocaltime d sentry comp = match d.transitions[d.search sentry comp]? with
      | some tr => do
        if comp.equal sentry tr then d.local? tr
        else
          check (d.search sentry comp ≠ 0)
          match d.transitions[d.search sentry comp - 1]? with
          | some tr => d.local? tr
          | none => .error .outOfBounds
      | none =>
        match d.transitions.getLast? with
        | some tr => d.local? tr
        | none => .error .outOfBounds := by
  rw [findLocaltime, if_neg hhead]
  rfl

/-- A sentry that is not before the first transition is found there only if it is equal. -/
theorem equal_of_search_zero {d : Data} {sentry tr : Transition} {comp : Comp}
    (hhead : ¬d.transitions.head?.all (comp.less sentry) = true)
    (hzero : d.search sentry comp = 0) (htr : d.transitions[0]? = some tr) :
    comp.equal sentry tr = true := by
  have hlen := (List.getElem?_eq_some_iff.mp htr).1
  have hstop := lowerBound_not_less (fun i => d.transitions[i]?.any (comp.less · sentry)) 0
    d.transitions.length (by
      change d.search sentry comp < _
      omega)
  change ¬(d.transitions[d.search sentry comp]?.any (comp.less · sentry)) = true at hstop
  rw [hzero, htr] at hstop
  rw [List.head?_eq_getElem?, htr] at hhead
  simp only [Option.all_some, Option.any_some, Comp.less, Comp.equal, decide_eq_true_eq] at *
  omega

/-- Wherever the search ends, whatever the order of the transitions, there is a local time, unless
there is none at all. -/
theorem findLocaltime_returns {d : Data} (h : d.localtimes ≠ []) (sentry : Transition)
    (comp : Comp) : ∃ l, findLocaltime d sentry comp = .ok l := by
  by_cases hhead : d.transitions.head?.all (comp.less sentry) = true
  · rw [findLocaltime, if_pos hhead]
    obtain ⟨l, ls, hls⟩ := List.exists_cons_of_ne_nil h
    exact ⟨l, by simp only [front, hls]⟩
  · rw [findLocaltime_search hhead]
    cases htr : d.transitions[d.search sentry comp]? with
    | none =>
      cases hlast : d.transitions.getLast? with
      | none =>
        rw [List.getLast?_eq_none_iff] at hlast
        simp [hlast] at hhead
      | some tr => exact local?_returns (List.mem_of_getLast? hlast)
    | some tr =>
      by_cases heq : comp.equal sentry tr = true
      · simp only [if_pos heq]
        exact local?_returns (List.mem_of_getElem? htr)
      · have hne : d.search sentry comp ≠ 0 := by
          intro hzero
          rw [hzero] at htr
          exact heq (equal_of_search_zero hhead hzero htr)
        have hlt := (List.getElem?_eq_some_iff.mp htr).1
        have hbefore : d.transitions[d.search sentry comp - 1]? = some _ :=
          List.getElem?_eq_getElem (by omega)
        simp only [if_neg heq, check_pos hne, ok_bind, hbefore]
        exact local?_returns (List.mem_of_getElem? hbefore)

theorem findLocaltime_empty {d : Data} (h : d.localtimes = []) (sentry : Transition)
    (comp : Comp) : findLocaltime d sentry comp = .error .outOfBounds := by
  have hnone := transitions_nil h
  simp only [findLocaltime, hnone, List.head?_nil, Option.all_none, if_true, front, h]

end Data

namespace TimeZone

variable {d : Data}

theorem toLocalTime_returns (cal : Calendar) (h : d.localtimes ≠ []) (seconds : Int) :
    ∃ tm, (TimeZone.mk (some d)).toLocalTime cal seconds = .ok tm := by
  obtain ⟨l, hl⟩ := d.findLocaltime_returns h ⟨seconds, 0, 0⟩ ⟨true⟩
  simp only [toLocalTime, data, ok_bind, hl]
  exact ⟨_, rfl⟩

theorem fromLocalTime_returns (cal : Calendar) (h : d.localtimes ≠ []) (tm : Tm) :
    ∃ seconds, (TimeZone.mk (some d)).fromLocalTime cal tm = .ok seconds := by
  obtain ⟨l, hl⟩ := d.findLocaltime_returns h ⟨0, cal.timegm tm.toBrokenDown, 0⟩ ⟨false⟩
  obtain ⟨tryTm, htry⟩ := toLocalTime_returns cal h (cal.timegm tm.toBrokenDown - l.gmtOffset)
  simp only [fromLocalTime, data, ok_bind, hl, htry]
  split
  · split
    · exact ⟨_, rfl⟩
    · exact ⟨_, rfl⟩
  · exact ⟨_, rfl⟩

theorem toLocalTime_empty (cal : Calendar) (h : d.localtimes = []) (seconds : Int) :
    (TimeZone.mk (some d)).toLocalTime cal seconds = .error .outOfBounds := by
  simp only [toLocalTime, data, ok_bind, d.findLocaltime_empty h, error_bind]

end TimeZone

namespace ZoneFile

/-- A time zone file is loaded whole or not at all exactly when it is there and well-formed, as
nothing that goes wrong makes the time zone invalid. -/
theorem all_or_nothing_iff (zonefile : Option Bytes) :
    AllOrNothing zonefile ↔ ∃ file, zonefile = some file ∧ WellFormed file := by
  constructor
  · rintro ⟨z, hz, hall⟩
    obtain ⟨d, hread, hd⟩ := Lib.bind_ok hz
    cases hd
    obtain ⟨⟨file, rfl, hcomplete⟩, hconvert⟩ := hall d rfl
    refine ⟨file, rfl, hcomplete.wellFormed hread fun hnil => ?_⟩
    obtain ⟨tm, htm⟩ := (hconvert ⟨fun _ => ⟨0, 0, 0, 0, 0, 0, 0, 0⟩, fun _ => 0⟩).1 0
    rw [TimeZone.toLocalTime_empty _ hnil] at htm
    exact nomatch htm
  · rintro ⟨file, rfl, hwell⟩
    obtain ⟨d, hread, hcomplete⟩ := hwell.loads
    refine ⟨⟨some d⟩, by simp only [TimeZone.ofFile, hread, ok_bind]; rfl, fun d' hd' => ?_⟩
    obtain rfl : d = d' := Option.some.inj hd'
    have hne : d.localtimes ≠ [] := by
      apply List.length_pos_iff.mp
      have hcount := hcomplete.typecnt
      have htypes := hwell.typecnt
      omega
    exact ⟨⟨file, rfl, hcomplete⟩, fun cal =>
      ⟨TimeZone.toLocalTime_returns cal hne, TimeZone.fromLocalTime_returns cal hne⟩⟩

/-- The file of UTC: no transitions, one type. -/
example : WellFormed (ascii "TZif2" ++ List.replicate 34 0 ++ [1, 0, 0, 0, 4] ++
    [0, 0, 0, 0, 0, 0] ++ ascii "UTC" ++ [0]) := by
  constructor <;> decide +kernel

/-- With no such file the time zone is valid all the same, and the first conversion takes the front
of an empty vector. -/
theorem missing_file_kept : ¬AllOrNothing none := by
  rintro ⟨z, hz, hall⟩
  cases hz
  obtain ⟨file, hfile, -⟩ := (hall .empty rfl).1
  exact nomatch hfile

end ZoneFile

end Muduo.Base
