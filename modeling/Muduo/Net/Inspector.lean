import Muduo.Lib.Pieces
import Muduo.Net.HttpServer

namespace Muduo.Net.Inspector
open Muduo.Lib Muduo.Net.Http

/-- `string::find(c, pos)`; `none` is `npos`. -/
def find (str : Bytes) (c : UInt8) (pos : Nat) : Option Nat :=
  ((str.drop pos).findIdx? (· == c)).map (pos + ·)

/-- `string::substr(pos, n)`. -/
def substr (str : Bytes) (pos n : Nat) : Bytes := (str.drop pos).take n

def slash : UInt8 := 47

def isSlash (c : UInt8) : Bool := c == slash

variable {str : Bytes} {start stop pos : Nat} {result : List Bytes} {segs : List Segment}

theorem find_some (h : find str slash start = some pos) :
    start ≤ pos ∧ pos < str.length ∧ Segment.Clean isSlash str start pos ∧
      Segment.SepAt isSlash str pos := by
  simp only [find, Option.map_eq_some_iff, List.findIdx?_eq_some_iff_getElem] at h
  obtain ⟨i, ⟨hi, hslash, hbefore⟩, rfl⟩ := h
  simp only [List.getElem_drop] at hslash hbefore
  rw [List.length_drop] at hi
  have hlt : start + i < str.length := by omega
  refine ⟨Nat.le_add_right start i, hlt, ?_, ⟨_, List.getElem?_eq_getElem hlt, hslash⟩⟩
  intro k hk hk' a hget
  have hclean := hbefore (k - start) (by omega)
  have hadd : start + (k - start) = k := by omega
  obtain ⟨hin, rfl⟩ := List.getElem?_eq_some_iff.mp hget
  simpa [hadd, isSlash] using hclean

theorem find_none (h : find str slash start = none) :
    Segment.Clean isSlash str start str.length := by
  simp only [find, Option.map_eq_none_iff, List.findIdx?_eq_none_iff] at h
  intro k hk hk' a hget
  have hdrop : (str.drop start)[k - start]? = some a := by
    rw [List.getElem?_drop, Nat.add_sub_cancel' hk]
    exact hget
  exact h a (List.mem_of_getElem? hdrop)

/-- The loop of `split`, from the position `start` on. -/
def splitFrom (str : Bytes) (start : Nat) (result : List Bytes) : List Bytes :=
  match _h : find str slash start with
  | some pos =>
    splitFrom str (pos + 1)
      (if pos > start then result ++ [substr str start (pos - start)] else result)
  | none => if start < str.length then result ++ [str.drop start] else result
termination_by str.length - start
decreasing_by
  obtain ⟨hle, hlt, -⟩ := find_some _h
  omega

def split (str : Bytes) : List Bytes := splitFrom str 0 []

/-- The pieces that end before `start`. -/
structure Found (str : Bytes) (start : Nat) (segs : List Segment) : Prop where
  apart : segs.Pairwise fun s t => s.stop < t.start
  mem_iff : ∀ s, s ∈ segs ↔ s.IsPiece isSlash str ∧ s.stop < start

/-- A stretch without a slash holds no piece but all of it. -/
theorem piece_eq {s : Segment} (hs : s.IsPiece isSlash str) (hge : start ≤ s.stop)
    (hstop : s.stop ≤ stop) (hin : stop ≤ str.length)
    (hleft : start = 0 ∨ Segment.SepAt isSlash str (start - 1))
    (hclean : Segment.Clean isSlash str start stop)
    (hright : stop = str.length ∨ Segment.SepAt isSlash str stop) :
    stop > start ∧ s = ⟨start, stop⟩ := by
  have hlt := hs.nonempty
  have hfrom : start ≤ s.start := by
    by_contra hback
    cases hleft with
    | inl hzero => omega
    | inr hsep => exact hs.clean.not_sepAt (by omega) (by omega) hsep
  have hmore : stop > start := by omega
  refine ⟨hmore, hs.unique ⟨hmore, hin, hclean, hleft, hright⟩ (i := s.start) ?_ ?_⟩
  · exact ⟨Nat.le_refl _, hlt⟩
  · exact ⟨hfrom, Nat.lt_of_lt_of_le hlt hstop⟩

/-- The next stretch without a slash is a piece, if there is anything in it. -/
theorem Found.next (h : Found str start segs) (hle : start ≤ stop) (hin : stop ≤ str.length)
    (hleft : start = 0 ∨ Segment.SepAt isSlash str (start - 1))
    (hclean : Segment.Clean isSlash str start stop)
    (hright : stop = str.length ∨ Segment.SepAt isSlash str stop) :
    Found str (stop + 1) (if stop > start then segs ++ [⟨start, stop⟩] else segs) := by
  by_cases hmore : stop > start
  · rw [if_pos hmore]
    have hpiece : Segment.IsPiece isSlash str ⟨start, stop⟩ := ⟨hmore, hin, hclean, hleft, hright⟩
    refine ⟨?_, ?_⟩
    · simp only [List.pairwise_append, List.mem_singleton]
      refine ⟨h.apart, List.pairwise_singleton _ _, ?_⟩
      intro s hs t ht
      rw [ht]
      exact ((h.mem_iff s).mp hs).2
    · intro s
      rw [List.mem_append, List.mem_singleton, h.mem_iff]
      constructor
      · intro hs
        cases hs with
        | inl hold => exact ⟨hold.1, by omega⟩
        | inr hnew =>
          rw [hnew]
          exact ⟨hpiece, Nat.lt_succ_self stop⟩
      · intro hs
        by_cases hold : s.stop < start
        · exact Or.inl ⟨hs.1, hold⟩
        · exact Or.inr (piece_eq hs.1 (by omega) (by omega) hin hleft hclean hright).2
  · rw [if_neg hmore]
    refine ⟨h.apart, ?_⟩
    intro s
    rw [h.mem_iff]
    constructor
    · intro hs
      exact ⟨hs.1, by omega⟩
    · intro hs
      by_cases hold : s.stop < start
      · exact ⟨hs.1, hold⟩
      · exact absurd (piece_eq hs.1 (by omega) (by omega) hin hleft hclean hright).1 hmore

/-- The loop adds the pieces that are left. -/
theorem splitFrom_found (h : Found str start segs) (hin : start ≤ str.length)
    (hleft : start = 0 ∨ Segment.SepAt isSlash str (start - 1)) :
    ∃ segs', splitFrom str start (segs.map fun s => s.text str) =
      segs'.map (fun s => s.text str) ∧ Found str (str.length + 1) segs' := by
  generalize hrest : str.length - start = n
  induction n using Nat.strong_induction_on generalizing start segs with
  | _ n ih =>
    rw [splitFrom]
    split
    · rename_i pos hfind
      obtain ⟨hle, hlt, hclean, hsep⟩ := find_some hfind
      have hnext := h.next hle (Nat.le_of_lt hlt) hleft hclean (Or.inr hsep)
      have hpush : (if pos > start then
            (segs.map fun s => s.text str) ++ [substr str start (pos - start)]
          else segs.map fun s => s.text str) =
          (if pos > start then segs ++ [⟨start, pos⟩] else segs).map fun s => s.text str := by
        split
        · simp [Segment.text, substr]
        · rfl
      rw [hpush]
      exact ih _ (by omega) hnext hlt (Or.inr hsep) rfl
    · rename_i hfind
      have hnext := h.next hin (Nat.le_refl _) hleft (find_none hfind) (Or.inl rfl)
      refine ⟨_, ?_, hnext⟩
      split
      · simp [Segment.text, List.take_of_length_le]
      · rfl

theorem split_found (str : Bytes) : ∃ segs : List Segment,
    split str = segs.map (fun s => s.text str) ∧ Found str (str.length + 1) segs := by
  have hnone : Found str 0 [] := ⟨List.Pairwise.nil, by simp⟩
  exact splitFrom_found hnone (Nat.zero_le _) (Or.inl rfl)

theorem drop_find (h : find str slash start = some pos) :
    str.drop start = substr str start (pos - start) ++ slash :: str.drop (pos + 1) := by
  obtain ⟨hle, hlt, -, a, hget, ha⟩ := find_some h
  have hslash : a = slash := by simpa [isSlash] using ha
  have hsplit := List.take_append_drop (pos - start) (str.drop start)
  rw [List.drop_drop, Nat.add_sub_cancel' hle, List.drop_eq_getElem_cons hlt] at hsplit
  obtain ⟨hin, hval⟩ := List.getElem?_eq_some_iff.mp hget
  rw [hval, hslash] at hsplit
  exact hsplit.symm

/-- What the loop adds is what stands between the slashes from there on. -/
theorem splitFrom_eq (str : Bytes) (start : Nat) (result : List Bytes) :
    splitFrom str start result = result ++ pieces isSlash (str.drop start) := by
  generalize hrest : str.length - start = n
  induction n using Nat.strong_induction_on generalizing start result with
  | _ n ih =>
    rw [splitFrom]
    split
    · rename_i pos hfind
      obtain ⟨hle, hlt, hclean, -⟩ := find_some hfind
      have hpiece := Segment.pieces_text (s := ⟨start, pos⟩) hclean (Nat.le_of_lt hlt)
      have hfirst : pieces isSlash (substr str start (pos - start)) =
          if pos > start then [substr str start (pos - start)] else [] := hpiece
      rw [ih _ (by omega) (pos + 1) _ rfl, drop_find hfind, pieces_append _ _ rfl, hfirst]
      split
      · rw [List.append_assoc]
      · rfl
    · rename_i hfind
      have hpiece := Segment.pieces_text (s := ⟨start, str.length⟩) (find_none hfind) (Nat.le_refl _)
      have hall : Segment.text ⟨start, str.length⟩ str = str.drop start := by
        simp [Segment.text, List.take_of_length_le]
      rw [hall] at hpiece
      rw [hpiece]
      split
      · rfl
      · exact (List.append_nil result).symm

theorem split_eq (str : Bytes) : split str = pieces isSlash str :=
  (splitFrom_eq str 0 []).trans (List.nil_append _)

/-- A path: slashes, and then components with the slashes that follow each. -/
def joined (lead : Nat) (components : List (Bytes × Nat)) : Bytes :=
  List.replicate lead slash ++
    components.flatMap fun component => component.1 ++ List.replicate component.2 slash

/-- Only the last component may come without a slash after it. -/
structure WellJoined (components : List (Bytes × Nat)) : Prop where
  clean : ∀ component ∈ components, component.1 ≠ [] ∧ slash ∉ component.1
  apart : ∀ component ∈ components.dropLast, 0 < component.2

variable {components : List (Bytes × Nat)} {lead : Nat}

theorem WellJoined.tail {component : Bytes × Nat} (h : WellJoined (component :: components)) :
    WellJoined components := by
  refine ⟨fun c hc => h.clean c (List.mem_cons_of_mem _ hc), fun c hc => h.apart c ?_⟩
  cases components with
  | nil => exact absurd hc List.not_mem_nil
  | cons next rest => exact List.mem_cons_of_mem _ hc

theorem split_joined (lead : Nat) (h : WellJoined components) :
    split (joined lead components) = components.map Prod.fst := by
  rw [split_eq, joined, pieces_replicate _ _ rfl]
  induction components with
  | nil => simp
  | cons component rest ih =>
    obtain ⟨hne, hnot⟩ := h.clean component List.mem_cons_self
    have hclean : ∀ c ∈ component.1, isSlash c = false := by
      intro c hc
      have hother : c ≠ slash := fun heq => hnot (heq ▸ hc)
      simpa [isSlash] using hother
    have hgap : 0 < component.2 ∨
        rest.flatMap (fun component => component.1 ++ List.replicate component.2 slash) = [] := by
      cases rest with
      | nil => exact Or.inr rfl
      | cons next rest => exact Or.inl (h.apart component List.mem_cons_self)
    rw [List.flatMap_cons, List.append_assoc, pieces_piece rfl hne hclean hgap, ih h.tail,
      List.map_cons]

/-- The components are the stretches between slashes, and a path that is put together from
components is taken apart into them. -/
theorem split_exact :
    (∀ str, ∃ segs : List Segment, split str = segs.map (fun s => s.text str) ∧
      (segs.Pairwise fun s t => s.stop < t.start) ∧
      (∀ s, s ∈ segs ↔ s.IsPiece isSlash str) ∧
      (∀ component ∈ split str, component ≠ [] ∧ slash ∉ component) ∧
      (split str).flatten = str.filter (fun c => !isSlash c) ∧
      (∀ i c, str[i]? = some c → c ≠ slash → ∃! s, s ∈ segs ∧ i ∈ s) ∧
      ∀ i j, i ≤ j → j < str.length →
        ((∃ s ∈ segs, i ∈ s ∧ j ∈ s) ↔ ∀ k, i ≤ k → k ≤ j → str[k]? ≠ some slash)) ∧
    ∀ lead components, WellJoined components →
      split (joined lead components) = components.map Prod.fst := by
  refine ⟨?_, fun lead _ => split_joined lead⟩
  intro str
  obtain ⟨segs, hsplit, hapart, hmem⟩ := split_found str
  have hpieces : ∀ s, s ∈ segs ↔ s.IsPiece isSlash str := by
    intro s
    rw [hmem]
    exact ⟨And.left, fun hs => ⟨hs, Nat.lt_succ_of_le hs.inside⟩⟩
  refine ⟨segs, hsplit, hapart, hpieces, ?_, ?_, ?_, ?_⟩
  · intro component hcomponent
    rw [hsplit] at hcomponent
    obtain ⟨s, hs, rfl⟩ := List.mem_map.mp hcomponent
    have hpiece := (hpieces s).mp hs
    refine ⟨hpiece.text_ne_nil, ?_⟩
    intro hslash
    have hnot := Segment.text_clean hpiece.clean hslash
    simp [isSlash] at hnot
  · rw [split_eq, flatten_pieces]
  · intro i c hget hc
    obtain ⟨s, hs, hunique⟩ := Segment.existsUnique_isPiece (p := isSlash) hget (by simpa [isSlash])
    exact ⟨s, ⟨(hpieces s).mpr hs.1, hs.2⟩, fun t ht => hunique t ⟨(hpieces t).mp ht.1, ht.2⟩⟩
  · intro i j hij hlen
    have htogether := Segment.together_iff (p := isSlash) hij hlen
    simp only [hpieces, htogether, Segment.Clean, isSlash]
    constructor
    · intro hclean k hk hk' hget
      simpa using hclean k hk (Nat.lt_succ_of_le hk') slash hget
    · intro hnone k hk hk' a hget
      have hother : a ≠ slash := fun heq => hnone k hk (Nat.le_of_lt_succ hk') (heq ▸ hget)
      simpa using hother

theorem split_exact_sample : split (joined 2 [(ascii "proc", 3), (ascii "pid", 0)]) =
    [ascii "proc", ascii "pid"] :=
  split_exact.2 2 _ ⟨by decide, by decide⟩

/-- `Inspector::Callback`. -/
abbrev Callback := Method → List Bytes → Bytes

/-- What `modules_` and `helps_` hold, in order; a callback may be empty. -/
structure Registered where
  modules_ : List (Bytes × List (Bytes × Option Callback))
  helps_ : List (Bytes × List (Bytes × Bytes))

variable (favicon : Bytes) (registered : Registered) (req : HttpRequest) (resp : HttpResponse)

/-- A line of the page that lists the commands. -/
def helpLine (module command help : Bytes) : Bytes :=
  let len := module.length + command.length
  ascii "/" ++ module ++ ascii "/" ++ command ++
    List.replicate (if len ≥ 25 then 1 else 25 - len) 32 ++ help ++ ascii "\n"

def helpPage : Bytes :=
  registered.helps_.flatMap fun list => list.2.flatMap fun help => helpLine list.1 help.1 help.2

def answer (contentType body : Bytes) : HttpResponse :=
  { resp.addHeader (ascii "Content-Type") contentType with
    statusCode := .k200Ok, statusMessage := ascii "OK", body := body }

def notFound : HttpResponse :=
  { resp with statusCode := .k404NotFound, statusMessage := ascii "Not Found" }

def onRequest : HttpResponse :=
  if req.path = ascii "/" then answer resp (ascii "text/plain") (helpPage registered)
  else
    match split req.path with
    | [] => notFound resp
    | [module] =>
      if module = ascii "favicon.ico" then answer resp (ascii "image/png") favicon
      else notFound resp
    | module :: command :: args =>
      match (registered.modules_.lookup module).bind fun commList => commList.lookup command with
      | some (some cb) => answer resp (ascii "text/plain") (cb req.method args)
      | _ => notFound resp

/-- A command gets the components behind its own as arguments, however the slashes of the path
are set. -/
theorem onRequest_command {module command : Bytes × Nat} {args : List (Bytes × Nat)}
    {commList : List (Bytes × Option Callback)} {cb : Callback}
    (h : WellJoined (module :: command :: args))
    (hpath : req.path = joined lead (module :: command :: args))
    (hmodule : registered.modules_.lookup module.1 = some commList)
    (hcommand : commList.lookup command.1 = some (some cb)) :
    onRequest favicon registered req resp =
      answer resp (ascii "text/plain") (cb req.method (args.map Prod.fst)) := by
  have hsplit := split_joined lead h
  rw [← hpath] at hsplit
  have hroot : req.path ≠ ascii "/" := by
    intro hroot
    have hnone : split (ascii "/") = [] := by
      rw [split_eq]
      exact (pieces_cons [] rfl).trans pieces_nil
    rw [hroot, hnone] at hsplit
    cases hsplit
  simp [onRequest, hroot, hsplit, hmodule, hcommand]

/-- A path whose first two components name no callback is not found. -/
theorem onRequest_unknown (hroot : req.path ≠ ascii "/")
    (h : ∀ module command args, split req.path = module :: command :: args →
      ∀ commList, registered.modules_.lookup module = some commList →
        ∀ cb, commList.lookup command ≠ some (some cb))
    (hicon : split req.path ≠ [ascii "favicon.ico"]) :
    onRequest favicon registered req resp = notFound resp := by
  rw [onRequest, if_neg hroot]
  split
  · rfl
  · rename_i module hsplit
    have hother : module ≠ ascii "favicon.ico" := fun heq => hicon (heq ▸ hsplit)
    rw [if_neg hother]
  · rename_i module command args hsplit
    split
    · rename_i cb hlookup
      obtain ⟨commList, hmodule, hcommand⟩ := Option.bind_eq_some_iff.mp hlookup
      exact absurd hcommand (h module command args hsplit commList hmodule cb)
    · rfl

end Muduo.Net.Inspector
