import Muduo.Net.HttpContext

namespace Muduo.Net.Http
open Muduo.Lib

/-- METHOD SP target SP "HTTP/1." digit -/
structure RequestLine where
  method : Method
  target : Bytes
  http11 : Bool
  method_valid : method ≠ .kInvalid
  no_space : 32 ∉ target

namespace RequestLine

variable (l : RequestLine)

def version : Version := if l.http11 then .kHttp11 else .kHttp10

/-- The version as it is written. -/
def versionText : Bytes := ascii "HTTP/1." ++ [if l.http11 then 49 else 48]

def bytes : Bytes := l.method.string ++ 32 :: (l.target ++ 32 :: l.versionText)

/-- What a fresh request becomes. -/
def request : HttpRequest :=
  { HttpRequest.new with
    method := l.method
    version := l.version
    path := l.target.takeWhile (· ≠ 63)
    query := l.target.dropWhile (· ≠ 63) }

end RequestLine

/-- The line begins like a request with this method, and is not of the grammar. -/
structure Spoiled (line : Bytes) (m : Method) : Prop where
  method_valid : m ≠ .kInvalid
  begins : m.string ++ [32] <+: line
  wrong : ∀ l : RequestLine, line ≠ l.bytes

variable {line name rest target version : Bytes} {m m' : Method} {r : HttpRequest}

theorem idxOf_first {sep : UInt8} (h : sep ∉ line) : (line ++ sep :: rest).idxOf sep = line.length := by
  rw [List.idxOf_append_of_notMem h, List.idxOf_cons_self, Nat.add_zero]

theorem setMethod_string (m : Method) (hm : m ≠ .kInvalid) (hr : r.method = .kInvalid) :
    r.setMethod m.string = .ok { r with method := m } := by
  rw [HttpRequest.setMethod, if_pos hr]
  cases m with
  | kInvalid => exact absurd rfl hm
  | _ => rfl

theorem method_plain (m : Method) : ∀ b ∈ m.string, b ≠ 32 ∧ b ≠ 13 := by
  cases m <;> decide +kernel

theorem take_idxOf (sep : UInt8) (l : Bytes) : l.take (l.idxOf sep) = l.takeWhile (· ≠ sep) := by
  induction l with
  | nil => rfl
  | cons a l ih =>
    by_cases ha : a = sep
    · subst ha
      simp
    · rw [List.idxOf_cons_ne l ha, List.take_succ_cons, ih, List.takeWhile_cons_of_pos (by simpa)]

theorem drop_idxOf (sep : UInt8) (l : Bytes) : l.drop (l.idxOf sep) = l.dropWhile (· ≠ sep) := by
  induction l with
  | nil => rfl
  | cons a l ih =>
    by_cases ha : a = sep
    · subst ha
      simp
    · rw [List.idxOf_cons_ne l ha, List.drop_succ_cons, ih, List.dropWhile_cons_of_pos (by simpa)]

theorem setTarget_new {m : Method} (target : Bytes) :
    HttpRequest.setTarget { HttpRequest.new with method := m } target =
      { HttpRequest.new with
        method := m
        path := target.takeWhile (· ≠ 63)
        query := target.dropWhile (· ≠ 63) } := by
  rw [← take_idxOf, ← drop_idxOf, HttpRequest.setTarget]
  split
  · rfl
  · rename_i hq
    have hnone : target.idxOf 63 = target.length := not_not.mp hq
    rw [hnone, List.take_length, List.drop_length]
    rfl

namespace HttpContext

theorem string_plain (m : Method) : 32 ∉ m.string := fun h => (method_plain m 32 h).1 rfl

/-- A method is set only for its own name. -/
theorem setMethod_new (name : Bytes) : ∃ m, HttpRequest.new.setMethod name =
    .ok { HttpRequest.new with method := m } ∧ (m ≠ .kInvalid → name = m.string) := by
  refine ⟨_, if_pos rfl, ?_⟩
  split_ifs with hget hpost hhead hput hdelete
  · exact fun _ => hget
  · exact fun _ => hpost
  · exact fun _ => hhead
  · exact fun _ => hput
  · exact fun _ => hdelete
  · exact fun h => absurd rfl h

/-- Behind the first space stands what the method does not decide. -/
theorem processRequestLine_space (hname : 32 ∉ name) :
    processRequestLine .new (name ++ 32 :: rest) =
      HttpRequest.new.setMethod name >>= fun request =>
        if request.method ≠ .kInvalid then
          if rest.idxOf 32 ≠ rest.length then
            let request := request.setTarget (rest.take (rest.idxOf 32))
            let version := rest.drop (rest.idxOf 32 + 1)
            if version.length = 8 ∧ version.take 7 = ascii "HTTP/1." then
              if version.getD 7 0 = 49 then .ok (true, { request with version := .kHttp11 })
              else if version.getD 7 0 = 48 then .ok (true, { request with version := .kHttp10 })
              else .ok (false, request)
            else .ok (false, request)
          else .ok (false, request)
        else .ok (false, request) := by
  have hspace : (name ++ 32 :: rest).idxOf 32 = name.length :=
    idxOf_first hname
  have hlen : (name ++ 32 :: rest).length = name.length + 1 + rest.length := by
    rw [List.length_append, List.length_cons]
    omega
  have hdrop : (name ++ 32 :: rest).drop (name.length + 1) = rest := by
    rw [← List.drop_drop, List.drop_left]
    rfl
  have hrest : ∀ n, (name ++ 32 :: rest).drop (name.length + 1 + n + 1) = rest.drop (n + 1) := by
    intro n
    rw [Nat.add_assoc (name.length + 1), ← List.drop_drop, hdrop]
  simp only [processRequestLine, hspace, List.take_left, hdrop, hrest, Nat.add_sub_cancel_left]
  rw [if_pos (by omega)]
  obtain ⟨m, hset, _⟩ := setMethod_new name
  rw [hset, ok_bind, ok_bind]
  have hsecond : (name.length + 1 + rest.idxOf 32 ≠ (name ++ 32 :: rest).length) ↔
      rest.idxOf 32 ≠ rest.length := by omega
  simp only [hsecond]

theorem versionText_length (l : RequestLine) : l.versionText.length = 8 := by
  unfold RequestLine.versionText
  cases l.http11 <;> rfl

/-- A line of the grammar is accepted, and read as it was written. -/
theorem processRequestLine_bytes (l : RequestLine) :
    processRequestLine .new l.bytes = .ok (true, l.request) := by
  have hset := setMethod_string (r := .new) l.method l.method_valid rfl
  have htarget : (l.target ++ 32 :: l.versionText).idxOf 32 = l.target.length :=
    idxOf_first l.no_space
  have hlen : l.target.length ≠ (l.target ++ 32 :: l.versionText).length := by
    rw [List.length_append, List.length_cons]
    omega
  have hversion : (l.target ++ 32 :: l.versionText).drop (l.target.length + 1) = l.versionText := by
    rw [← List.drop_drop, List.drop_left]
    rfl
  have h7 : l.versionText.length = 8 ∧ l.versionText.take 7 = ascii "HTTP/1." :=
    ⟨versionText_length l, rfl⟩
  rw [RequestLine.bytes, processRequestLine_space (string_plain _), hset, ok_bind,
    if_pos l.method_valid, htarget, if_pos hlen]
  simp only [List.take_left, hversion, if_pos h7, setTarget_new]
  unfold RequestLine.request RequestLine.version RequestLine.versionText
  cases l.http11 <;> rfl

/-- A version of the right length and beginning is one of the two, but for its digit. -/
theorem version_eq (h : version.length = 8 ∧ version.take 7 = ascii "HTTP/1.") :
    version = ascii "HTTP/1." ++ [version.getD 7 0] := by
  have hdrop : version.drop 7 = [version.getD 7 0] := by
    rw [List.drop_eq_getElem_cons (by omega), List.drop_eq_nil_of_le (by omega)]
    simp [h.1]
  rw [← h.2, ← hdrop, List.take_append_drop]

theorem setTarget_method (r : HttpRequest) (target : Bytes) :
    (r.setTarget target).method = r.method := by
  unfold HttpRequest.setTarget
  simp only
  split <;> rfl

theorem first_space {name' rest' : Bytes} (h : name ++ 32 :: rest = name' ++ 32 :: rest')
    (hname : 32 ∉ name) (hname' : 32 ∉ name') : name = name' := by
  have hidx : (name ++ 32 :: rest).idxOf 32 = name.length :=
    idxOf_first hname
  have hidx' : (name' ++ 32 :: rest').idxOf 32 = name'.length :=
    idxOf_first hname'
  exact (List.append_inj h (by rw [← hidx, ← hidx', h])).1

/-- Behind a method name only a target and a version are accepted. -/
theorem processRequestLine_method (hm : m ≠ .kInvalid) (rest : Bytes) :
    ∃ ok r, processRequestLine .new (m.string ++ 32 :: rest) = .ok (ok, r) ∧ r.method = m ∧
      (ok = true → ∃ l : RequestLine, m.string ++ 32 :: rest = l.bytes) := by
  have hset := setMethod_string (r := .new) m hm rfl
  have hkeep : ∀ target, (HttpRequest.setTarget { HttpRequest.new with method := m } target).method
      = m := setTarget_method _
  rw [processRequestLine_space (string_plain m), hset, ok_bind, if_pos hm]
  by_cases hmem : (32 : UInt8) ∈ rest
  · obtain ⟨target, version, rfl, hno⟩ := List.eq_append_cons_of_mem hmem
    have hidx : (target ++ 32 :: version).idxOf 32 = target.length :=
      idxOf_first hno
    have hlen : target.length ≠ (target ++ 32 :: version).length := by
      rw [List.length_append, List.length_cons]
      omega
    have hdrop : (target ++ 32 :: version).drop (target.length + 1) = version := by
      rw [← List.drop_drop, List.drop_left]
      rfl
    simp only [hidx, if_pos hlen, hdrop]
    by_cases hv : version.length = 8 ∧ version.take 7 = ascii "HTTP/1."
    · have hversion := version_eq hv
      rw [if_pos hv]
      by_cases h1 : version.getD 7 0 = 49
      · refine ⟨true, _, if_pos h1, hkeep _, fun _ => ⟨⟨m, target, true, hm, hno⟩, ?_⟩⟩
        rw [hversion, h1]
        rfl
      · rw [if_neg h1]
        by_cases h0 : version.getD 7 0 = 48
        · refine ⟨true, _, if_pos h0, hkeep _, fun _ => ⟨⟨m, target, false, hm, hno⟩, ?_⟩⟩
          rw [hversion, h0]
          rfl
        · exact ⟨false, _, if_neg h0, hkeep _, nofun⟩
    · exact ⟨false, _, if_neg hv, hkeep _, nofun⟩
  · have hidx : rest.idxOf 32 = rest.length := List.idxOf_eq_length_iff.mpr hmem
    exact ⟨false, _, if_neg (not_not.mpr hidx), rfl, nofun⟩

/-- A line is of the grammar, or it is refused; a refused line leaves a method behind only if it
begins with one. -/
theorem processRequestLine_cases (line : Bytes) :
    (∃ l : RequestLine, line = l.bytes) ∨
    (∃ m r, Spoiled line m ∧ r.method = m ∧ processRequestLine .new line = .ok (false, r)) ∨
    ((∀ m, ¬Spoiled line m) ∧ (∀ l : RequestLine, line ≠ l.bytes) ∧
      processRequestLine .new line = .ok (false, .new)) := by
  by_cases hgrammar : ∃ l : RequestLine, line = l.bytes
  · exact .inl hgrammar
  · have hwrong : ∀ l : RequestLine, line ≠ l.bytes := fun l hl => hgrammar ⟨l, hl⟩
    by_cases hmem : (32 : UInt8) ∈ line
    · obtain ⟨name, rest, rfl, hno⟩ := List.eq_append_cons_of_mem hmem
      obtain ⟨m, hset, hname⟩ := setMethod_new name
      by_cases hm : m = .kInvalid
      · -- the name is no method
        subst hm
        refine .inr (.inr ⟨?_, hwrong, ?_⟩)
        · rintro m ⟨hm, hbegins, -⟩
          obtain ⟨more, hmore⟩ := hbegins
          rw [List.append_assoc, List.singleton_append] at hmore
          obtain rfl := first_space hmore (string_plain m) hno
          rw [setMethod_string m hm rfl] at hset
          exact hm (congrArg HttpRequest.method (Except.ok.inj hset))
        · rw [processRequestLine_space hno, hset]
          rfl
      · obtain rfl := hname hm
        obtain ⟨ok, r, hprocess, hr, hgood⟩ := processRequestLine_method hm rest
        have hbegins : m.string ++ [32] <+: m.string ++ 32 :: rest := ⟨rest, by simp⟩
        cases ok with
        | true => exact absurd (hgood rfl) hgrammar
        | false => exact .inr (.inl ⟨m, r, ⟨hm, hbegins, hwrong⟩, hr, hprocess⟩)
    · refine .inr (.inr ⟨?_, hwrong, ?_⟩)
      · rintro m ⟨_, hbegins, -⟩
        exact hmem (hbegins.subset (List.mem_append_right _ List.mem_cons_self))
      · rw [processRequestLine]
        exact if_neg (not_not.mpr (List.idxOf_eq_length_iff.mpr hmem))

/-- A request is what its line says: the method and the version are the line's, and the target
is cut in front of its first question mark. -/
structure Tells (l : RequestLine) (r : HttpRequest) : Prop where
  method : r.method = l.method
  version : r.version = l.version
  path : 63 ∉ r.path
  query : r.query = [] ∨ r.query.head? = some 63
  target : r.path ++ r.query = l.target

theorem request_tells (l : RequestLine) : Tells l l.request := by
  refine ⟨rfl, rfl, fun h => ?_, ?_, List.takeWhile_append_dropWhile⟩
  · simpa using List.mem_takeWhile_imp h
  · have hhead := List.head?_dropWhile_not (· ≠ 63) l.target
    cases hquery : l.target.dropWhile (· ≠ 63) with
    | nil => exact .inl hquery
    | cons b rest =>
      rw [hquery] at hhead
      have hb : b = 63 := by simpa using hhead
      exact .inr (hb ▸ congrArg List.head? hquery)

/-- For every line `processRequestLine` returns; it accepts exactly the lines of the grammar, and
then the request is what the line says. -/
theorem processRequestLine_exact (line : Bytes) :
    ∃ ok r, processRequestLine .new line = .ok (ok, r) ∧
      (ok = true ↔ ∃ l : RequestLine, line = l.bytes) ∧
      ∀ l : RequestLine, line = l.bytes → Tells l r := by
  rcases processRequestLine_cases line with ⟨l, rfl⟩ | ⟨m, r, hspoiled, -, hprocess⟩ |
    ⟨-, hwrong, hprocess⟩
  · refine ⟨true, l.request, processRequestLine_bytes l, iff_of_true rfl ⟨l, rfl⟩, ?_⟩
    intro l' hl
    have hprocess := processRequestLine_bytes l
    rw [hl, processRequestLine_bytes l'] at hprocess
    have hr : l'.request = l.request := by
      injection hprocess with hpair
      exact (Prod.mk.inj hpair).2
    exact hr ▸ request_tells l'
  · refine ⟨false, r, hprocess, iff_of_false nofun ?_, fun l hl => absurd hl (hspoiled.wrong l)⟩
    rintro ⟨l, hl⟩
    exact hspoiled.wrong l hl
  · refine ⟨false, .new, hprocess, iff_of_false nofun ?_, fun l hl => absurd hl (hwrong l)⟩
    rintro ⟨l, hl⟩
    exact hwrong l hl

end HttpContext

end Muduo.Net.Http
