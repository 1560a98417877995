import Muduo.Base.TimeZone

namespace Muduo.Base
open Muduo.Lib Muduo.Net

namespace Data

/-- The local time in force after `k` transitions. -/
def typeAfter (d : Data) : Nat → Option Localtime
  | 0 => d.localtimes.head?
  | k + 1 => d.transitions[k]?.bind fun tr => d.localtimes[tr.localtimeIdx]?

/-- The transitions are strictly increasing, and more than two hours apart. -/
def Spaced (d : Data) : Prop :=
  d.transitions.IsChain fun a b => a.gmttime + 7200 < b.gmttime
  deriving Decidable

/-- The same offset and season, or summer time one hour ahead of the other. -/
def Neighbouring (a b : Localtime) : Prop :=
  (a.gmtOffset = b.gmtOffset ∧ a.isDst = b.isDst) ∨
  (a.isDst = true ∧ b.isDst = false ∧ a.gmtOffset = b.gmtOffset + 3600) ∨
  (a.isDst = false ∧ b.isDst = true ∧ b.gmtOffset = a.gmtOffset + 3600)
  deriving Decidable

/-- Every transition leads from one local time to a neighbouring one. -/
def Seasonal (d : Data) : Prop :=
  ∀ k a b, d.typeAfter k = some a → d.typeAfter (k + 1) = some b → Neighbouring a b

/-- The transitions ascend by the key of the comparison. -/
def Ascending (d : Data) (comp : Comp) : Prop :=
  d.transitions.Pairwise fun a b => comp.key a < comp.key b

/-- The moment lies behind `k` transitions, and before the next. -/
structure At (d : Data) (comp : Comp) (k : Nat) (time : Int) : Prop where
  passed : ∀ j tr, j + 1 = k → d.transitions[j]? = some tr → comp.key tr ≤ time
  ahead : ∀ tr, d.transitions[k]? = some tr → time < comp.key tr

variable {d : Data} {comp : Comp} {k : Nat} {time : Int} {l : Localtime} {tr : Transition}

theorem transition_of_typeAfter (h : d.typeAfter (k + 1) = some l) :
    ∃ tr, d.transitions[k]? = some tr ∧ d.local? tr = .ok l ∧
      tr.localtime = tr.gmttime + l.gmtOffset := by
  obtain ⟨tr, htr, hl⟩ := Option.bind_eq_some_iff.mp h
  obtain ⟨l', hl', ht⟩ := d.indexed tr (List.mem_of_getElem? htr)
  obtain rfl : l = l' := Option.some.inj (hl.symm.trans hl')
  refine ⟨tr, htr, ?_, ht⟩
  simp only [local?, hl]

theorem typeAfter_of_transition (h : d.transitions[k]? = some tr) :
    ∃ l, d.typeAfter (k + 1) = some l ∧ tr.localtime = tr.gmttime + l.gmtOffset := by
  obtain ⟨l, hl, ht⟩ := d.indexed tr (List.mem_of_getElem? h)
  exact ⟨l, by simp only [typeAfter, h, Option.bind_some, hl], ht⟩

theorem Ascending.lt (h : d.Ascending comp) {i j : Nat} {a b : Transition} (hij : i < j)
    (ha : d.transitions[i]? = some a) (hb : d.transitions[j]? = some b) :
    comp.key a < comp.key b := by
  obtain ⟨hi, rfl⟩ := List.getElem?_eq_some_iff.mp ha
  obtain ⟨hj, rfl⟩ := List.getElem?_eq_some_iff.mp hb
  exact List.pairwise_iff_getElem.mp h i j hi hj hij

theorem Ascending.of_chain
    (h : d.transitions.IsChain fun a b => comp.key a < comp.key b) : d.Ascending comp := by
  have : IsTrans Transition fun a b => comp.key a < comp.key b :=
    ⟨fun _ _ _ => Int.lt_trans⟩
  exact List.isChain_iff_pairwise.mp h

theorem Spaced.ascending (h : d.Spaced) : d.Ascending ⟨true⟩ := by
  apply Ascending.of_chain
  refine h.imp ?_
  intro a b hab
  change a.gmttime < b.gmttime
  omega

theorem Spaced.next (h : d.Spaced) {a b : Transition} (ha : d.transitions[k]? = some a)
    (hb : d.transitions[k + 1]? = some b) : a.gmttime + 7200 < b.gmttime := by
  obtain ⟨hi, rfl⟩ := List.getElem?_eq_some_iff.mp ha
  obtain ⟨hj, rfl⟩ := List.getElem?_eq_some_iff.mp hb
  exact List.isChain_iff_getElem.mp h k hj

theorem Neighbouring.near {a b : Localtime} (h : Neighbouring a b) :
    a.gmtOffset ≤ b.gmtOffset + 3600 ∧ b.gmtOffset ≤ a.gmtOffset + 3600 := by
  unfold Neighbouring at h
  omega

/-- The local times of the transitions ascend too: an hour back is less than two hours on. -/
theorem Spaced.ascending_local (h : d.Spaced) (hn : d.Seasonal) : d.Ascending ⟨false⟩ := by
  apply Ascending.of_chain
  refine List.isChain_iff_getElem.mpr ?_
  intro i hi
  change d.transitions[i].localtime < d.transitions[i + 1].localtime
  have ha : d.transitions[i]? = some d.transitions[i] := List.getElem?_eq_getElem _
  have hb : d.transitions[i + 1]? = some d.transitions[i + 1] := List.getElem?_eq_getElem _
  obtain ⟨x, hx, hax⟩ := typeAfter_of_transition ha
  obtain ⟨y, hy, hby⟩ := typeAfter_of_transition hb
  have hgap := h.next ha hb
  have hnear := (hn (i + 1) x y hx hy).near
  omega

/-- Every moment lies between two transitions. -/
theorem exists_at (d : Data) (comp : Comp) (time : Int) :
    ∃ k, k ≤ d.transitions.length ∧ d.At comp k time := by
  refine ⟨d.transitions.findIdx fun tr => time < comp.key tr, List.findIdx_le_length, ?_, ?_⟩
  · intro j tr hj htr
    obtain ⟨hlt, rfl⟩ := List.getElem?_eq_some_iff.mp htr
    have hnot := List.not_of_lt_findIdx (Nat.lt_of_lt_of_eq (Nat.lt_succ_self j) hj)
    simpa using hnot
  · intro tr htr
    obtain ⟨hlt, rfl⟩ := List.getElem?_eq_some_iff.mp htr
    have hfound := List.findIdx_getElem (w := hlt)
    simpa using hfound

/-- The search ends at the first transition that is not less than the sentry. -/
theorem search_eq (d : Data) (comp : Comp) (sentry : Transition) {p : Nat}
    (hp : p ≤ d.transitions.length)
    (hbefore : ∀ i tr, i < p → d.transitions[i]? = some tr → comp.key tr < comp.key sentry)
    (hafter : ∀ i tr, p ≤ i → d.transitions[i]? = some tr → comp.key sentry ≤ comp.key tr) :
    lowerBound (fun i => d.transitions[i]?.any (comp.less · sentry)) 0 d.transitions.length
      = p := by
  apply lowerBound_eq (Nat.zero_le p) (by omega)
  intro i _ hi
  have htr : d.transitions[i]? = some d.transitions[i] := List.getElem?_eq_getElem (by omega)
  simp only [htr, Option.any_some, Comp.less, decide_eq_true_eq]
  constructor
  · intro hless
    apply Nat.lt_of_not_le
    intro hle
    have := hafter i _ hle htr
    omega
  · intro hlt
    exact hbefore i _ hlt htr

theorem At.findLocaltime_zero {sentry : Transition} (h : d.At comp 0 (comp.key sentry))
    (hl : d.typeAfter 0 = some l) : findLocaltime d sentry comp = .ok l := by
  have hall : d.transitions.head?.all (comp.less sentry) = true := by
    rw [List.head?_eq_getElem?]
    cases htr : d.transitions[0]? with
    | none => rfl
    | some tr => simpa [Comp.less] using h.ahead tr htr
  rw [findLocaltime, if_pos hall, front]
  simp only [typeAfter] at hl
  cases hls : d.localtimes with
  | nil => simp [hls] at hl
  | cons a as =>
    rw [hls, List.head?_cons] at hl
    cases hl
    rfl

theorem At.after (h : d.At comp k time) (ha : d.Ascending comp) {i : Nat} (hi : k ≤ i)
    (htr : d.transitions[i]? = some tr) : time < comp.key tr := by
  have hlen := (List.getElem?_eq_some_iff.mp htr).1
  have hnext : d.transitions[k]? = some d.transitions[k] := List.getElem?_eq_getElem (by omega)
  rcases Nat.eq_or_lt_of_le hi with rfl | hi
  · exact h.ahead tr htr
  · exact Int.lt_trans (h.ahead _ hnext) (ha.lt hi hnext htr)

theorem At.before (h : d.At comp (k + 1) time) (ha : d.Ascending comp) {i : Nat} (hi : i ≤ k)
    (hk : k < d.transitions.length) (htr : d.transitions[i]? = some tr) :
    comp.key tr ≤ time := by
  have hlast : d.transitions[k]? = some d.transitions[k] := List.getElem?_eq_getElem hk
  rcases Nat.eq_or_lt_of_le hi with rfl | hi
  · exact h.passed i tr rfl htr
  · exact Int.le_trans (Int.le_of_lt (ha.lt hi htr hlast)) (h.passed k _ rfl hlast)

theorem At.findLocaltime_succ {sentry : Transition} (h : d.At comp (k + 1) (comp.key sentry))
    (ha : d.Ascending comp) (hl : d.typeAfter (k + 1) = some l) :
    findLocaltime d sentry comp = .ok l := by
  obtain ⟨tr, htr, hlocal, _⟩ := transition_of_typeAfter hl
  have hk := (List.getElem?_eq_some_iff.mp htr).1
  have hhead : ¬d.transitions.head?.all (comp.less sentry) = true := by
    have h0 : d.transitions[0]? = some d.transitions[0] := List.getElem?_eq_getElem (by omega)
    have hfront := h.before ha (Nat.zero_le k) hk h0
    simpa [List.head?_eq_getElem?, h0, Comp.less] using hfront
  rw [findLocaltime, if_neg hhead]
  by_cases heq : comp.key tr = comp.key sentry
  · have hp := search_eq d comp sentry (Nat.le_of_lt hk)
      (fun i a hi hget => heq ▸ ha.lt hi hget htr)
      (by
        intro i a hi hget
        rcases Nat.eq_or_lt_of_le hi with rfl | hi
        · cases htr.symm.trans hget
          omega
        · exact Int.le_of_lt (h.after ha hi hget))
    simp only [hp, htr, Comp.equal, heq, decide_true, if_true, hlocal]
  · have hp := search_eq d comp sentry (Nat.succ_le_of_lt hk)
      (by
        intro i a hi hget
        rcases Nat.eq_or_lt_of_le (Nat.le_of_lt_succ hi) with rfl | hi
        · have := h.passed i tr rfl htr
          cases htr.symm.trans hget
          omega
        · have := h.passed k tr rfl htr
          have := ha.lt hi hget htr
          omega)
      (fun i a hi hget => Int.le_of_lt (h.after ha hi hget))
    simp only [hp]
    cases hnext : d.transitions[k + 1]? with
    | none =>
      have hlast : d.transitions.getLast? = some tr := by
        have hlen := List.getElem?_eq_none_iff.mp hnext
        rw [List.getLast?_eq_getElem?, ← htr]
        congr 1
        omega
      simp only [hlast, hlocal]
    | some next =>
      have hne : comp.equal sentry next = false := by
        have := h.ahead next hnext
        simp only [Comp.equal, decide_eq_false_iff_not]
        omega
      simp [hne, check_pos, htr, hlocal]

/-- `findLocaltime` finds the local time in force. -/
theorem At.findLocaltime (sentry : Transition) (h : d.At comp k (comp.key sentry))
    (ha : d.Ascending comp) (hl : d.typeAfter k = some l) :
    findLocaltime d sentry comp = .ok l := by
  cases k with
  | zero => exact h.findLocaltime_zero hl
  | succ k => exact h.findLocaltime_succ ha hl

theorem exists_typeAfter (hf : d.localtimes ≠ []) (hk : k ≤ d.transitions.length) :
    ∃ l, d.typeAfter k = some l := by
  cases k with
  | zero =>
    cases hls : d.localtimes with
    | nil => exact absurd hls hf
    | cons l ls => exact ⟨l, by simp only [typeAfter, hls, List.head?_cons]⟩
  | succ k =>
    have htr : d.transitions[k]? = some d.transitions[k] := List.getElem?_eq_getElem hk
    obtain ⟨l, hl, _⟩ := typeAfter_of_transition htr
    exact ⟨l, hl⟩

/-- By local time the moment lies behind the same transitions, unless the next one sets the
clock back to before it. -/
theorem At.local_same (h : d.At ⟨true⟩ k time) (hl : d.typeAfter k = some l)
    (hnext : ∀ tr, d.transitions[k]? = some tr → time + l.gmtOffset < tr.localtime) :
    d.At ⟨false⟩ k (time + l.gmtOffset) where
  ahead := hnext
  passed := by
    intro j tr hj htr
    subst hj
    obtain ⟨l', hl', ht⟩ := typeAfter_of_transition htr
    obtain rfl : l = l' := Option.some.inj (hl.symm.trans hl')
    have hle : tr.gmttime ≤ time := h.passed j tr rfl htr
    change tr.localtime ≤ time + l.gmtOffset
    omega

/-- The first pass through a repeated hour: its local time lies behind the transition that ends
summer time, and an hour later it is the same local time again. -/
theorem At.local_next (h : d.At ⟨true⟩ k time) (hs : d.Spaced) (hn : d.Seasonal)
    (hl : d.typeAfter k = some l) (htr : d.transitions[k]? = some tr)
    (hle : tr.localtime ≤ time + l.gmtOffset) :
    ∃ b, d.typeAfter (k + 1) = some b ∧ b.isDst = false ∧ l.isDst = true ∧
      l.gmtOffset = b.gmtOffset + 3600 ∧
      d.At ⟨false⟩ (k + 1) (time + l.gmtOffset) ∧ d.At ⟨true⟩ (k + 1) (time + 3600) := by
  obtain ⟨b, hb, ht⟩ := typeAfter_of_transition htr
  have hlt : time < tr.gmttime := h.ahead tr htr
  have hback : l.isDst = true ∧ b.isDst = false ∧ l.gmtOffset = b.gmtOffset + 3600 := by
    rcases hn k l b hl hb with hsame | hfall | hspring
    · omega
    · exact hfall
    · omega
  obtain ⟨hdst, hstd, hoff⟩ := hback
  refine ⟨b, hb, hstd, hdst, hoff, ⟨?_, ?_⟩, ⟨?_, ?_⟩⟩
  · intro j a hj ha
    cases hj
    cases htr.symm.trans ha
    exact hle
  · intro a ha
    obtain ⟨c, hc, hat⟩ := typeAfter_of_transition ha
    have hgap := hs.next htr ha
    have hnear := (hn (k + 1) b c hb hc).near
    change time + l.gmtOffset < a.localtime
    omega
  · intro j a hj ha
    cases hj
    cases htr.symm.trans ha
    change tr.gmttime ≤ time + 3600
    omega
  · intro a ha
    have hgap := hs.next htr ha
    change time + 3600 < a.gmttime
    omega

end Data

/-- The `struct tm` of a moment at which this local time is in force. -/
def Localtime.tm (cal : Calendar) (l : Localtime) (time : Int) : Tm :=
  { cal.gmtime_r (time + l.gmtOffset) with
    tm_isdst := if l.isDst then 1 else 0
    tm_gmtoff := l.gmtOffset
    tm_zone := l.arrbIdx }

namespace TimeZone
open Data

variable {cal : Calendar} {d : Data} {k : Nat} {time : Int} {l : Localtime}

theorem toLocalTime_at (cal : Calendar) (hs : d.Spaced) (h : d.At ⟨true⟩ k time)
    (hl : d.typeAfter k = some l) :
    (TimeZone.mk (some d)).toLocalTime cal time = .ok (l.tm cal time) := by
  have hfind : findLocaltime d ⟨time, 0, 0⟩ ⟨true⟩ = .ok l :=
    At.findLocaltime ⟨time, 0, 0⟩ h hs.ascending hl
  simp only [toLocalTime, data, ok_bind, hfind]
  rfl

theorem fromLocalTime_same (hs : d.Spaced) (hn : d.Seasonal) (h : d.At ⟨true⟩ k time)
    (hlocal : d.At ⟨false⟩ k (time + l.gmtOffset)) (hl : d.typeAfter k = some l)
    (hcal : cal.timegm (cal.gmtime_r (time + l.gmtOffset)) = time + l.gmtOffset) :
    (TimeZone.mk (some d)).fromLocalTime cal (l.tm cal time) = .ok time := by
  have hfind : findLocaltime d ⟨0, time + l.gmtOffset, 0⟩ ⟨false⟩ = .ok l :=
    At.findLocaltime ⟨0, time + l.gmtOffset, 0⟩ hlocal (hs.ascending_local hn) hl
  have hsub : time + l.gmtOffset - l.gmtOffset = time := by omega
  have htry := toLocalTime_at cal hs h hl
  simp only [fromLocalTime, data, ok_bind, Localtime.tm, hcal, hfind, hsub, htry]
  cases l.isDst <;> rfl

/-- The second try tells the first pass through a repeated hour from the second. -/
theorem fromLocalTime_next {b : Localtime} (hs : d.Spaced) (hn : d.Seasonal)
    (hb : d.typeAfter (k + 1) = some b) (hstd : b.isDst = false) (hdst : l.isDst = true)
    (hoff : l.gmtOffset = b.gmtOffset + 3600)
    (hlocal : d.At ⟨false⟩ (k + 1) (time + l.gmtOffset)) (h : d.At ⟨true⟩ (k + 1) (time + 3600))
    (hcal : cal.timegm (cal.gmtime_r (time + l.gmtOffset)) = time + l.gmtOffset) :
    (TimeZone.mk (some d)).fromLocalTime cal (l.tm cal time) = .ok time := by
  have hfind : findLocaltime d ⟨0, time + l.gmtOffset, 0⟩ ⟨false⟩ = .ok b :=
    At.findLocaltime ⟨0, time + l.gmtOffset, 0⟩ hlocal (hs.ascending_local hn) hb
  have hsub : time + l.gmtOffset - b.gmtOffset = time + 3600 := by omega
  have hsame : time + 3600 + b.gmtOffset = time + l.gmtOffset := by omega
  have hhack : time + l.gmtOffset - 3600 - b.gmtOffset = time := by omega
  have htry := toLocalTime_at cal hs h hb
  simp only [fromLocalTime, data, ok_bind, Localtime.tm, hcal, hfind, hsub, htry, hsame, hhack,
    hstd, hdst]
  rfl

/-- Local time leads back to the moment it was made from. -/
theorem local_round_trip (hcal : ∀ t, cal.timegm (cal.gmtime_r t) = t) (hf : d.localtimes ≠ [])
    (hs : d.Spaced) (hn : d.Seasonal) (t : Int) :
    ((TimeZone.mk (some d)).toLocalTime cal t >>= (TimeZone.mk (some d)).fromLocalTime cal)
      = .ok t := by
  obtain ⟨k, hk, hat⟩ := exists_at d ⟨true⟩ t
  obtain ⟨l, hl⟩ := exists_typeAfter hf hk
  have hc := hcal (t + l.gmtOffset)
  rw [toLocalTime_at cal hs hat hl, ok_bind]
  by_cases hnext : ∀ tr, d.transitions[k]? = some tr → t + l.gmtOffset < tr.localtime
  · exact fromLocalTime_same hs hn hat (hat.local_same hl hnext) hl hc
  · push Not at hnext
    obtain ⟨tr, htr, hle⟩ := hnext
    obtain ⟨b, hb, hstd, hdst, hoff, hlocal, hlater⟩ := hat.local_next hs hn hl htr hle
    exact fromLocalTime_next hs hn hb hstd hdst hoff hlocal hlater hc

/-- The days of a common year before each of its months. -/
def daysBefore : List Nat := [0, 31, 59, 90, 120, 151, 181, 212, 243, 273, 304, 334]

def monthOf (yday : Nat) : Nat := daysBefore.countP (· ≤ yday) - 1

/-- The calendar of years that all have 365 days, which is right for 1970 and 1971. -/
def commonYears : Calendar where
  gmtime_r t :=
    let days := t / 86400
    let seconds := t % 86400
    let yday := (days % 365).toNat
    { tm_sec := seconds % 60
      tm_min := seconds / 60 % 60
      tm_hour := seconds / 3600
      tm_mday := yday - daysBefore.getD (monthOf yday) 0 + 1
      tm_mon := monthOf yday
      tm_year := days / 365 + 70
      tm_wday := (days + 4) % 7
      tm_yday := yday }
  timegm tm :=
    ((tm.tm_year - 70) * 365 + daysBefore.getD tm.tm_mon.toNat 0 + tm.tm_mday - 1) * 86400 +
      tm.tm_hour * 3600 + tm.tm_min * 60 + tm.tm_sec

theorem commonYears_inverse (t : Int) : commonYears.timegm (commonYears.gmtime_r t) = t := by
  simp only [commonYears, Int.toNat_natCast]
  omega

/-- New York in 1970. -/
def newYork : Data where
  transitions := [⟨9961200, 9946800, 1⟩, ⟨25682400, 25664400, 0⟩]
  localtimes := [⟨-18000, false, 0⟩, ⟨-14400, true, 4⟩]
  abbreviation := ascii "EST" ++ 0 :: ascii "EDT" ++ [0]
  indexed := by simp

theorem newYork_seasonal : newYork.Seasonal := by
  intro k a b ha hb
  match k with
  | 0 => cases ha; cases hb; decide
  | 1 => cases ha; cases hb; decide
  | k + 2 => cases hb

/-- Twenty past one on the 25th of October, for the first time. -/
theorem local_round_trip_sample :
    ((TimeZone.mk (some newYork)).toLocalTime commonYears 25680000 >>=
      (TimeZone.mk (some newYork)).fromLocalTime commonYears) = .ok 25680000 :=
  local_round_trip commonYears_inverse (by decide) (by decide) newYork_seasonal 25680000

end TimeZone

end Muduo.Base
