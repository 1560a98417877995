import Muduo.Lib.OrderedMap
import Muduo.Net.Inspector

namespace Muduo.Net.Inspector
open Muduo.Lib Muduo.Net.Http OrderedMap

variable {r : Registered} {module command : Bytes}

theorem before_order : Order before := by
  refine ⟨fun a => ?_, fun a b c => ?_, fun a b => ?_⟩
  · induction a with
    | nil => rfl
    | cons x a ih => simp [before, ih]
  · induction a generalizing b c with
    | nil => cases b <;> cases c <;> simp [before]
    | cons x a ih =>
      cases b with
      | nil => simp [before]
      | cons y b =>
        cases c with
        | nil => simp [before]
        | cons z c =>
          simp only [before, Bool.or_eq_true, Bool.and_eq_true, decide_eq_true_eq]
          intro hab hbc
          cases hab with
          | inl hxy =>
            cases hbc with
            | inl hyz => exact .inl (UInt8.lt_trans hxy hyz)
            | inr hyz => exact .inl (hyz.1 ▸ hxy)
          | inr hxy =>
            cases hbc with
            | inl hyz => exact .inl (hxy.1 ▸ hyz)
            | inr hyz => exact .inr ⟨hxy.1.trans hyz.1, ih b c hxy.2 hyz.2⟩
  · induction a generalizing b with
    | nil => cases b <;> simp [before]
    | cons x a ih =>
      cases b with
      | nil => simp [before]
      | cons y b =>
        simp only [before, Bool.or_eq_true, Bool.and_eq_true, decide_eq_true_eq]
        intro hne
        by_cases hxy : x = y
        · subst hxy
          have htail : a ≠ b := fun heq => hne (heq ▸ rfl)
          cases ih b htail with
          | inl hab => exact .inl (.inr ⟨rfl, hab⟩)
          | inr hba => exact .inr (.inr ⟨rfl, hba⟩)
        · cases UInt8.lt_or_lt_of_ne hxy with
          | inl hlt => exact .inl (.inl hlt)
          | inr hgt => exact .inr (.inl hgt)

/-- `Inspector::add`. -/
def Registered.add (r : Registered) (module command : Bytes) (cb : Option Callback)
    (help : Bytes) : Registered where
  modules_ := update before module (fun l => update before command (fun _ => cb) (l.getD []))
    r.modules_
  helps_ := update before module (fun l => update before command (fun _ => help) (l.getD []))
    r.helps_

/-- `Inspector::remove`. -/
def Registered.remove (r : Registered) (module command : Bytes) : Registered :=
  match r.modules_.lookup module with
  | none => r
  | some _ =>
    { modules_ := update before module (fun l => erase command (l.getD [])) r.modules_
      helps_ := update before module (fun l => erase command (l.getD [])) r.helps_ }

inductive Change
  | add (module command : Bytes) (cb : Option Callback) (help : Bytes)
  | remove (module command : Bytes)

def Registered.change (r : Registered) : Change → Registered
  | .add module command cb help => r.add module command cb help
  | .remove module command => r.remove module command

/-- What is registered after changes, from any threads, in the order of their critical sections. -/
def registered (changes : List Change) : Registered := changes.foldl Registered.change ⟨[], []⟩

/-- Each command of each module, with its callback and help. -/
abbrev Table := Bytes → Bytes → Option (Option Callback × Bytes)

def Table.set (t : Table) (module command : Bytes) (entry : Option (Option Callback × Bytes)) :
    Table :=
  fun m c => if m = module ∧ c = command then entry else t m c

def Table.change (t : Table) : Change → Table
  | .add module command cb help => t.set module command (some (cb, help))
  | .remove module command => t.set module command none

/-- The entry of a command is the one it was last given. -/
def table (changes : List Change) : Table := changes.foldl Table.change fun _ _ => none

variable {t : Table}

/-- The maps of maps hold the table. -/
structure Agrees (r : Registered) (t : Table) : Prop where
  modules : Nested before before r.modules_
  helps : Nested before before r.helps_
  callback : ∀ m c, entry r.modules_ m c = (t m c).map Prod.fst
  help : ∀ m c, entry r.helps_ m c = (t m c).map Prod.snd

theorem Agrees.add (h : Agrees r t) (cb : Option Callback) (help : Bytes) :
    Agrees (r.add module command cb help) (t.set module command (some (cb, help))) := by
  have hsorted : ∀ {β : Type} (v : β) (l : List (Bytes × β)), Sorted before l →
      Sorted before (update before command (fun _ => v) l) :=
    fun v l hl => hl.update before_order command _
  have hlookup : ∀ {β : Type} (v : β) (l : List (Bytes × β)), Sorted before l → ∀ c,
      (update before command (fun _ => v) l).lookup c =
        if c = command then some v else l.lookup c :=
    fun v l hl c => lookup_update before_order hl _
  refine ⟨h.modules.update before_order module (hsorted cb),
    h.helps.update before_order module (hsorted help), fun m c => ?_, fun m c => ?_⟩
  · refine (h.modules.entry_update before_order (hlookup cb)).trans ?_
    rw [h.callback, Table.set]
    split <;> rfl
  · refine (h.helps.entry_update before_order (hlookup help)).trans ?_
    rw [h.help, Table.set]
    split <;> rfl

theorem Agrees.remove (h : Agrees r t) :
    Agrees (r.remove module command) (t.set module command none) := by
  unfold Registered.remove
  split
  · rename_i hnone
    -- nothing is registered for a module that is not there
    have hsame : t.set module command none = t := by
      funext m c
      unfold Table.set
      split
      · rename_i hmc
        obtain ⟨rfl, rfl⟩ := hmc
        have hcallback := h.callback m c
        rw [entry, hnone] at hcallback
        exact (Option.map_eq_none_iff.mp hcallback.symm).symm
      · rfl
    rw [hsame]
    exact h
  · have hsorted : ∀ {β : Type} (l : List (Bytes × β)), Sorted before l →
        Sorted before (erase command l) := fun l hl => hl.erase command
    have hlookup : ∀ {β : Type} (l : List (Bytes × β)), Sorted before l → ∀ c,
        (erase command l).lookup c = if c = command then none else l.lookup c :=
      fun l _ c => lookup_erase
    refine ⟨h.modules.update before_order module hsorted,
      h.helps.update before_order module hsorted, fun m c => ?_, fun m c => ?_⟩
    · refine (h.modules.entry_update before_order hlookup).trans ?_
      rw [h.callback, Table.set]
      split <;> rfl
    · refine (h.helps.entry_update before_order hlookup).trans ?_
      rw [h.help, Table.set]
      split <;> rfl

theorem registered_agrees (changes : List Change) :
    Agrees (registered changes) (table changes) := by
  have hfold : ∀ (r : Registered) (t : Table), Agrees r t →
      Agrees (changes.foldl Registered.change r) (changes.foldl Table.change t) := by
    induction changes with
    | nil => exact fun _ _ h => h
    | cons change changes ih =>
      intro r t h
      apply ih
      cases change with
      | add module command cb help => exact h.add cb help
      | remove module command => exact h.remove
  exact hfold _ _ ⟨.nil, .nil, fun _ _ => rfl, fun _ _ => rfl⟩

/-- The page lists the commands of the table, each once and in order. -/
structure Lists (t : Table) (entries : List (Bytes × Bytes × Bytes)) : Prop where
  sorted : entries.Pairwise (Before before before)
  mem : ∀ m c help, (m, c, help) ∈ entries ↔ ∃ cb, t m c = some (cb, help)

theorem Agrees.lists (h : Agrees r t) : Lists t (flat r.helps_) := by
  refine ⟨h.helps.flat_sorted, fun m c help => ?_⟩
  rw [h.helps.mem_flat before_order before_order, h.help, Option.map_eq_some_iff]
  constructor
  · intro hentry
    obtain ⟨entry, hentry, rfl⟩ := hentry
    exact ⟨entry.1, hentry⟩
  · intro hentry
    obtain ⟨cb, hentry⟩ := hentry
    exact ⟨_, hentry, rfl⟩

theorem helpPage_flat (r : Registered) :
    helpPage r = (flat r.helps_).flatMap fun e => helpLine e.1 e.2.1 e.2.2 := by
  simp only [helpPage, flat, List.flatMap_assoc, List.flatMap_map]

/-- What a request is answered by a table whose commands are listed by `entries`. -/
def Table.onRequest (t : Table) (entries : List (Bytes × Bytes × Bytes)) (favicon : Bytes)
    (req : HttpRequest) (resp : HttpResponse) : HttpResponse :=
  if req.path = ascii "/" then
    answer resp (ascii "text/plain") (entries.flatMap fun e => helpLine e.1 e.2.1 e.2.2)
  else
    match split req.path with
    | [] => notFound resp
    | [module] =>
      if module = ascii "favicon.ico" then answer resp (ascii "image/png") favicon
      else notFound resp
    | module :: command :: args =>
      match t module command with
      | some (some cb, _) => answer resp (ascii "text/plain") (cb req.method args)
      | _ => notFound resp

/-- After any changes, a request is answered by what each command was last given. -/
theorem commands_served (changes : List Change) : ∃ entries, Lists (table changes) entries ∧
    ∀ favicon req resp, onRequest favicon (registered changes) req resp =
      (table changes).onRequest entries favicon req resp := by
  have h := registered_agrees changes
  refine ⟨_, h.lists, fun favicon req resp => ?_⟩
  unfold onRequest Table.onRequest
  rw [helpPage_flat]
  by_cases hroot : req.path = ascii "/"
  · rw [if_pos hroot, if_pos hroot]
  · rw [if_neg hroot, if_neg hroot]
    cases split req.path with
    | nil => rfl
    | cons module rest =>
      cases rest with
      | nil => rfl
      | cons command args =>
        have hfind := h.callback module command
        rw [entry] at hfind
        simp only [hfind]
        cases table changes module command with
        | none => rfl
        | some given =>
          obtain ⟨cb, help⟩ := given
          cases cb <;> rfl

end Muduo.Net.Inspector
