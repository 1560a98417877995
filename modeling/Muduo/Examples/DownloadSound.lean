import Muduo.Examples.Download
import Muduo.Net.Closing
import Muduo.Net.WriteComplete

namespace Muduo.Examples.Download
open Muduo.Lib Muduo.Net

variable {content : Option Bytes} {s : Download}

def down (s : Download) : Bool := s.sys.conn.state = .kDisconnected

/-- What is known of the `FILE` of a connection. It is open until the file has been sent or the
connection goes down. -/
structure Reads (s : Download) (content : Option Bytes) (fp : FILE) : Prop where
  content : content = some fp.content
  context : s.context = if s.finished then .null else .fp
  sent : s.sent = fp.content.take fp.position
  whole : s.finished = true → fp.content.length ≤ fp.position
  closed : fp.closed = if s.finished || s.down then 1 else 0

/-- The connection reads while it is up, and at most one write-complete callback is to come, and
none once the file has been sent. -/
structure Sound (content : Option Bytes) (s : Download) : Prop where
  orderly : s.sys.Orderly
  counted : s.sys.conn.Counted (if s.context = .fp then 1 else 0)
  destroying : s.sys.destroying = false
  destroyed : s.sys.destroyQueued = true → s.down = true
  connected : s.down = false → s.context = .fp → s.sys.conn.state = .kConnected
  unopened : s.file = none → s.context = .empty ∧ s.sent = [] ∧ s.finished = false
  file : ∀ fp, s.file = some fp → s.Reads content fp

/-- The file is closed once, and sent in order, as far as it has been sent. -/
structure Downloaded (content : Option Bytes) (s : Download) : Prop where
  closed_once : ∀ fp, s.file = some fp → fp.closed ≤ 1 ∧ (s.down = true → fp.closed = 1)
  in_order : s.sent <+: content.getD []
  complete : s.finished = true → s.sent = content.getD []

theorem Sound.downloaded (h : s.Sound content) : s.Downloaded content := by
  cases hf : s.file with
  | none =>
    obtain ⟨-, hsent, hfinished⟩ := h.unopened hf
    exact ⟨fun fp he => by simp [hf] at he, by simp [hsent], fun hd => by simp [hfinished] at hd⟩
  | some fp =>
    have hr := h.file fp hf
    refine ⟨?_, ?_, fun hd => ?_⟩
    · intro fp' he
      cases hf.symm.trans he
      rw [hr.closed]
      refine ⟨by split <;> omega, fun hdown => by simp [hdown]⟩
    · rw [hr.sent, hr.content]
      exact List.take_prefix _ _
    · rw [hr.sent, hr.content, List.take_of_length_le (hr.whole hd)]
      rfl

theorem Sound.finished_iff (h : s.Sound content) {fp : FILE} (hf : s.file = some fp) :
    s.finished = true ↔ s.context ≠ .fp := by
  rw [(h.file fp hf).context]
  cases s.finished <;> simp

theorem Sound.up (h : s.Sound content) {callback : Channel.Callback}
    {callbacks : List Channel.Callback} (hcb : s.sys.callbacks = callback :: callbacks)
    (hcl : System.closing callback = true) : s.down = false := by
  simpa [down] using h.orderly.up hcb hcl

theorem Sound.keeps_functor (h : s.Sound content) (w : WriteResult) :
    s.sys.Keeps (.functor w) := by
  change System.Destroys _ _
  cases hfs : s.sys.conn.pendingFunctors with
  | nil => trivial
  | cons f fs =>
    have hkind := h.counted.kinds f (hfs ▸ List.mem_cons_self)
    rcases hkind with rfl | ⟨k, rfl⟩ | ⟨rfl, hst⟩
    · trivial
    · trivial
    · exact ⟨fun hc => by simp [hst] at hc, fun hc => by simp [hst] at hc⟩

theorem Sound.sends_nothing (h : s.Sound content) (w : WriteResult) :
    ¬s.sys.Overruns (.functor w) := by
  change ¬System.OverrunsNext _ _
  cases hfs : s.sys.conn.pendingFunctors with
  | nil => exact id
  | cons f fs =>
    have hkind := h.counted.kinds f (hfs ▸ List.mem_cons_self)
    rcases hkind with rfl | ⟨k, rfl⟩ | ⟨rfl, hst⟩
    · exact id
    · exact id
    · exact id

/-- A step of the loop that leaves the file alone, and the connection up or down as it was. -/
theorem Sound.withSys (h : s.Sound content) {sys : System} (ho : sys.Orderly)
    (hc : sys.conn.Counted (if s.context = .fp then 1 else 0))
    (hst : sys.conn.state = s.sys.conn.state) (hd : sys.destroying = false)
    (hq : sys.destroyQueued = s.sys.destroyQueued) : Sound content { s with sys } := by
  have hdown : down { s with sys } = s.down := by simp only [down, hst]
  refine ⟨ho, hc, hd, ?_, ?_, h.unopened, fun fp hf => ?_⟩
  · rw [hdown]
    exact fun hque => h.destroyed (hq ▸ hque)
  · rw [hdown]
    exact fun hup hcx => hst.trans (h.connected hup hcx)
  · have hr := h.file fp hf
    exact ⟨hr.content, hr.context, hr.sent, hr.whole, by rw [hdown]; exact hr.closed⟩

/-- The `FILE` that is still open when the connection goes down is closed then. -/
theorem Sound.closes (h : s.Sound content) (hup : s.down = false) (sys : System) :
    ∃ file, onConnectionDown { s with sys } = .ok { s with sys, file } ∧
      (file = none → s.file = none) ∧
      ∀ fp, file = some fp → ∃ fp₀, s.file = some fp₀ ∧ fp = { fp₀ with closed := 1 } := by
  unfold onConnectionDown
  cases hf : s.file with
  | none =>
    refine ⟨none, ?_, fun _ => rfl, nofun⟩
    simp only [(h.unopened hf).1]
  | some fp =>
    have hr := h.file fp hf
    have hclosed := hr.closed
    simp only [hup, Bool.or_false] at hclosed
    refine ⟨some { fp with closed := 1 }, ?_, nofun, fun fp' he => ⟨fp, rfl, ?_⟩⟩
    · cases hfin : s.finished with
      | true =>
        simp only [hfin, if_true] at hclosed
        simp only [hr.context, hfin, if_true, ← hclosed]
      | false =>
        simp only [hfin, Bool.false_eq_true, if_false] at hclosed
        simp only [hr.context, hfin, Bool.false_eq_true, if_false, fclose, FILE.fclose, hclosed,
          if_true, ok_bind]
    · cases he
      rfl

/-- The server asks for `connectDestroyed` when the connection is down, not before. -/
theorem Sound.unqueued (h : s.Sound content) (hup : s.down = false) :
    s.sys.destroyQueued = false := by
  cases hq : s.sys.destroyQueued with
  | false => rfl
  | true =>
    have hdown := h.destroyed hq
    rw [hup] at hdown
    cases hdown

/-- The callbacks that `handleClose` makes once the connection is down. -/
theorem Sound.goesDown (h : s.Sound content) (hup : s.down = false) {sys : System}
    (ho : sys.Orderly) {n : Nat} (hc : sys.conn.Counted n) (hst : sys.conn.state = .kDisconnected)
    (hd : sys.destroying = false) (hq : sys.destroyQueued = s.sys.destroyQueued) :
    Yields (Sound content) (· = Fault.lengthError) (Download.goesDown { s with sys }) := by
  have hunqueued := hq.trans (h.unqueued hup)
  obtain ⟨file, hclose, hnone, hsome⟩ := h.closes hup sys
  rw [Download.goesDown, hclose, ok_bind]
  have horderly := System.step_orderly_within ho (e := .queueConnectDestroyed) hunqueued trivial id
  refine ⟨horderly, ?_, hd, fun _ => ?_, fun hup' => ?_, fun hf => h.unopened (hnone hf),
    fun fp hf => ?_⟩
  · have hdestroyed := hc.destroyed hst
    exact ⟨hdestroyed.toSound, hdestroyed.reading, hdestroyed.mark, hdestroyed.kinds,
      fun hne => absurd hst hne, fun hne => absurd hst hne⟩
  · simp [down, TcpConnection.queueInLoop, hst]
  · simp [down, TcpConnection.queueInLoop, hst] at hup'
  · obtain ⟨fp₀, hf₀, rfl⟩ := hsome fp hf
    have hr := h.file fp₀ hf₀
    refine ⟨hr.content, hr.context, hr.sent, hr.whole, ?_⟩
    simp [down, TcpConnection.queueInLoop, hst]

theorem Sound.onMessage (h : s.Sound content) :
    Yields (Sound content) (· = Fault.lengthError) s.onMessage := by
  have hyields := System.step_orderly_within h.orderly (e := .call (.retrieveInput
    s.sys.conn.inputBuffer.readableBytes)) (Nat.le_refl _) trivial id
  unfold Download.onMessage call
  cases hres : s.sys.step (.call (.retrieveInput s.sys.conn.inputBuffer.readableBytes)) with
  | error f =>
    rw [hres] at hyields
    exact hyields
  | ok sys =>
    have ho := hyields.of_ok hres
    obtain ⟨c, hc, rfl⟩ := System.call_ok hres
    obtain ⟨b, -, hc⟩ := bind_ok hc
    cases hc
    exact h.withSys ho (h.counted.withInput ho.conn.input) rfl h.destroying rfl

theorem Sound.handle (h : s.Sound content) {read : Option Bytes} {w : WriteResult}
    (he : s.enabled (.handle read w)) :
    Yields (Sound content) (· = Fault.lengthError) (s.handle read w) := by
  change s.sys.enabled (.handle read w) at he
  have hyields := System.step_orderly_within h.orderly he
    (h.orderly.keeps_handle h.counted.reading read w) id
  unfold Download.handle
  cases hres : s.sys.step (.handle read w) with
  | error f =>
    rw [hres] at hyields
    exact hyields
  | ok sys =>
    have ho := hyields.of_ok hres
    obtain ⟨callback, callbacks, hcb⟩ := List.exists_cons_of_ne_nil he.1
    obtain ⟨c, hc, rfl⟩ := System.handle_cons hcb hres
    simp only [ok_bind, hcb, List.head?_cons]
    cases callback with
    | close =>
      obtain ⟨hcounted, hdown⟩ := h.counted.handleClose hc
      exact h.goesDown (h.up hcb rfl) ho hcounted hdown h.destroying rfl
    | error =>
      cases hc
      exact h.withSys ho h.counted rfl h.destroying rfl
    | write =>
      obtain ⟨hcounted, hst⟩ := h.counted.handleWrite he.2.2.2 hc
      exact h.withSys ho hcounted hst h.destroying rfl
    | read =>
      obtain ⟨b, hb, hc⟩ := bind_ok hc
      have hvalid := (TcpConnection.readFd_valid h.counted.input he.2.2.1).of_ok hb
      have hinput := h.counted.withInput hvalid
      match read with
      | none =>
        cases hc
        exact h.withSys ho hinput rfl h.destroying rfl
      | some [] =>
        obtain ⟨hcounted, hdown⟩ := hinput.handleClose hc
        exact h.goesDown (h.up hcb rfl) ho hcounted hdown h.destroying rfl
      | some (x :: xs) =>
        cases hc
        exact (h.withSys ho hinput rfl h.destroying rfl).onMessage

theorem take_next (fp : FILE) (n : Nat) :
    fp.content.take fp.position ++ fp.next n = fp.content.take (fp.advance n).position := by
  have hlen : (fp.content.drop fp.position).take n =
      (fp.content.drop fp.position).take (fp.next n).length := by
    simp [FILE.next, List.take_eq_take_iff]
  rw [FILE.advance, List.take_add, ← hlen]
  rfl

/-- Sending the next part of the file. -/
theorem send_sound {fp : FILE} {buf : Bytes} {w : WriteResult} (ho : s.sys.Orderly)
    (hc : s.sys.conn.Counted 0) (hd : s.sys.destroying = false)
    (hq : s.sys.destroyQueued = false) (hst : s.sys.conn.state = .kConnected)
    (hcx : s.context = .fp) (hfin : s.finished = false) (hf : s.file = some fp)
    (hcontent : content = some fp.content) (hclosed : fp.closed = 0)
    (hsent : s.sent ++ buf = fp.content.take fp.position) (hw : System.Sends buf w) :
    Yields (Sound content) (· = Fault.lengthError) (s.send buf w) := by
  have horderly := System.step_orderly_within ho (e := .call (.send buf w)) hw trivial id
  unfold Download.send call
  cases hres : s.sys.step (.call (.send buf w)) with
  | error f =>
    rw [hres] at horderly
    exact horderly
  | ok sys =>
    have horderly := horderly.of_ok hres
    obtain ⟨c, hok, rfl⟩ := System.call_ok hres
    have hup : s.sys.conn.state ≠ .kDisconnected := by simp [hst]
    obtain ⟨hcounted, hstate⟩ := hc.sendInLoop hup hw ((if_pos hst).symm.trans hok)
    rw [hst] at hstate
    refine ⟨horderly, by rw [if_pos hcx]; exact hcounted, hd, ?_, fun _ _ => hstate, ?_, ?_⟩
    · simp [hq]
    · simp [hf]
    · intro fp' he
      cases hf.symm.trans he
      refine ⟨hcontent, by simp [hcx, hfin], hsent, by simp [hfin], ?_⟩
      simp [hclosed, hfin, down, hstate]

/-- A write-complete callback on a connection that is up finds the file open, and reads on or
ends the download. -/
theorem Sound.onWriteComplete {fp : FILE} {w : WriteResult} (h : s.Sound content)
    (hup : s.down = false) (hcx : s.context = .fp) (hf : s.file = some fp) {sys : System}
    (ho : sys.Orderly) (hc : sys.conn.Counted 0) (hst : sys.conn.state = s.sys.conn.state)
    (hd : sys.destroying = false) (hq : sys.destroyQueued = s.sys.destroyQueued)
    (hw : w.taken ≤ (fp.next kSize).length) :
    Yields (Sound content) (· = Fault.lengthError)
      (Download.onWriteComplete { s with sys } w) := by
  have hr := h.file fp hf
  have hfin : s.finished = false := by
    have := mt (h.finished_iff hf).mp (not_not.mpr hcx)
    simpa using this
  have hclosed : fp.closed = 0 := by simpa [hfin, hup] using hr.closed
  have hconnected := hst.trans (h.connected hup hcx)
  have hunqueued := hq.trans (h.unqueued hup)
  have hsent : s.sent ++ fp.next kSize = fp.content.take (fp.advance kSize).position := by
    rw [hr.sent, take_next]
  have hlen : (fp.next kSize).length ≤ 1024 := by
    rw [FILE.next, List.length_take]
    exact Nat.min_le_left _ _
  simp only [Download.onWriteComplete, hcx, hf, FILE.fread, hclosed, if_true, ok_bind]
  split
  · exact send_sound (s := { s with sys, file := some (fp.advance kSize), context := .fp }) ho hc hd
      hunqueued hconnected rfl hfin rfl hr.content hclosed hsent
      ⟨Nat.le_trans hlen (by decide), hw⟩
  · rename_i hnone
    have hnext : fp.next kSize = [] := List.eq_nil_of_length_eq_zero (by omega)
    have hend : fp.content.length ≤ fp.position := by
      have hdrop : fp.content.drop fp.position = [] := by
        simpa [FILE.next, kSize] using hnext
      exact List.drop_eq_nil_iff.mp hdrop
    have hclosed' : (fp.advance kSize).closed = 0 := hclosed
    simp only [fclose, FILE.fclose, hclosed', if_true, ok_bind, call]
    have hyields := System.step_orderly_within ho (e := .call .shutdown) trivial trivial id
    cases hres : sys.step (.call .shutdown) with
    | error f =>
      rw [hres] at hyields
      exact hyields
    | ok sys' =>
      have ho' := hyields.of_ok hres
      obtain ⟨c, hok, rfl⟩ := System.call_ok hres
      cases hok
      obtain ⟨hcounted, hiff⟩ := hc.shutdown
      have hup' : ¬sys.conn.shutdown.state = .kDisconnected := by
        rw [hiff, hconnected]
        nofun
      refine ⟨ho', hcounted, hd, ?_, fun _ => nofun, nofun, ?_⟩
      · simp [hunqueued]
      · intro fp' he
        cases he
        refine ⟨hr.content, rfl, ?_, fun _ => ?_, by simp [FILE.advance]⟩
        · rw [hnext, List.append_nil] at hsent
          exact hsent
        · simp only [FILE.advance, hnext, List.length_nil, Nat.add_zero]
          exact hend

/-- A write-complete callback runs only while the connection is up. -/
def CompletesUp (s : Download) : Event → Prop
  | .functor _ => s.WriteCompletes → s.down = false
  | _ => True

theorem Sound.functor (h : s.Sound content) {w : WriteResult} (he : s.enabled (.functor w))
    (hc : s.CompletesUp (.functor w)) :
    Yields (Sound content) (· = Fault.lengthError) (s.functor w) := by
  obtain ⟨he, hw⟩ := he
  have hyields := System.step_orderly_within h.orderly he (h.keeps_functor w) (h.sends_nothing w)
  unfold Download.functor
  cases hres : s.sys.step (.functor w) with
  | error f =>
    rw [hres] at hyields
    exact hyields
  | ok sys =>
    have ho := hyields.of_ok hres
    obtain ⟨f, fs, hfs⟩ := List.exists_cons_of_ne_nil he.2.1
    obtain ⟨c, hok, rfl⟩ := System.functor_cons hfs hres
    have hpop := h.counted.pop hfs
    simp only [ok_bind, hfs, List.head?_cons]
    rcases h.counted.kinds f (hfs ▸ List.mem_cons_self) with rfl | ⟨k, rfl⟩ | ⟨rfl, hst⟩
    · have hcompletes : s.WriteCompletes := by rw [WriteCompletes, hfs, List.head?_cons]
      have hup := hc hcompletes
      cases hok
      have hone : s.context = .fp := by
        have hne : s.sys.conn.state ≠ .kDisconnected := by simpa [down] using hup
        have hdue := h.counted.due hne
        by_contra hcx
        rw [if_neg hcx] at hdue
        simp [TcpConnection.dueCompletes, hfs] at hdue
      rw [if_pos rfl, if_pos hone] at hpop
      have hopen : s.file ≠ none := fun hf => by simp [(h.unopened hf).1] at hone
      obtain ⟨fp, hf⟩ := Option.ne_none_iff_exists'.mp hopen
      have htaken := hw hcompletes
      simp only [nextChunk, hf, Option.elim_some] at htaken
      rw [if_pos rfl]
      exact h.onWriteComplete hup hone hf ho hpop rfl rfl rfl htaken
    · cases hok
      rw [if_neg (by simp)]
      exact h.withSys ho hpop rfl rfl rfl
    · have hne : ¬s.sys.conn.state = .kConnected := by simp [hst]
      simp only [System.functorStep, if_neg hne] at hok
      obtain ⟨hcounted, hdown⟩ := hpop.removeChannel hst hok
      rw [if_neg (by simp)]
      refine h.withSys ho hcounted (hdown.trans hst.symm) ?_ rfl
      simp [System.callsBack, hst]

theorem Sound.step (h : s.Sound content) {e : Event} (he : machine.enabled s e)
    (hc : s.CompletesUp e) : Yields (Sound content) (· = Fault.lengthError) (machine.step s e) := by
  cases e with
  | poll r =>
    change s.sys.enabled (.poll r) at he
    have ho := System.step_orderly_within h.orderly he trivial id
    exact h.withSys ho h.counted rfl h.destroying rfl
  | handle read w => exact h.handle he
  | functor w => exact h.functor he hc

/-- Once the connection is down, the callback reads a file that has been closed, or finds none. -/
theorem Sound.step_fails (h : s.Sound content) {e : Event} (he : machine.enabled s e)
    (hc : ¬s.CompletesUp e) : ∃ f, machine.step s e = .error f ∧ ¬f = .lengthError := by
  cases e with
  | poll r | handle read w => exact absurd trivial hc
  | functor w =>
    obtain ⟨hcompletes, hdown⟩ := Classical.not_imp.mp hc
    have hdown : s.down = true := by simpa using hdown
    obtain ⟨fs, hfs⟩ := List.head?_eq_some_iff.mp hcompletes
    change ∃ f, s.functor w = .error f ∧ _
    simp only [Download.functor, System.step, hfs, System.functorStep, ok_bind, List.head?_cons,
      if_true, Download.onWriteComplete]
    cases hf : s.file with
    | none =>
      rw [(h.unopened hf).1]
      exact ⟨.fatal, rfl, by simp⟩
    | some fp =>
      have hr := h.file fp hf
      have hclosed : ¬fp.closed = 0 := by simp [hr.closed, hdown]
      rw [hr.context]
      cases s.finished with
      | true => exact ⟨.assertion, rfl, by simp⟩
      | false =>
        refine ⟨.useAfterFree, ?_, by simp⟩
        simp only [FILE.fread, hclosed, Bool.false_eq_true, if_false, error_bind]

/-- The connection that the server hands over. -/
def acceptedConn : TcpConnection :=
  ⟨.kConnected, true, ⟨⟨true, false⟩, .kAdded, true, true, some ⟨true, false⟩⟩, true, false,
    64 * 1024 * 1024, ⟨List.replicate 1032 0, 8, 8⟩, ⟨List.replicate 1032 0, 8, 8⟩, [],
    ⟨[], [], 0, 0, 1, 0, 0⟩⟩

theorem accepted_eq : accepted = .ok (System.start acceptedConn) := by
  simp only [accepted, TcpConnection.new, Buffer.new_initial, ok_bind]
  rfl

/-- `setHighWaterMarkCallback`. -/
def markedConn : TcpConnection :=
  { acceptedConn with highWaterMarkCallback := true, highWaterMark := kSize + 1 }

theorem marked_orderly : (System.start markedConn).Orderly := by
  have hestablished : System.Established (System.start acceptedConn) := by
    obtain ⟨c₀, hnew, h⟩ := bind_ok accepted_eq
    obtain ⟨c, hup, h⟩ := bind_ok h
    exact ⟨true, false, _, c₀, c, hnew, hup, (Except.ok.inj h).symm⟩
  have ho := System.established_orderly hestablished
  have ht := ho.conn
  exact ⟨⟨⟨ht.input, ht.output, ht.channel⟩, ht.established, ht.reading, ht.added, ht.fresh,
    ht.once, ht.quiet, ht.gone⟩, ho.callbacks, ho.closed, ho.destroying, ho.once⟩

theorem marked_counted : markedConn.Counted 0 := by
  have ht := marked_orderly.conn
  have hempty : markedConn.outputBuffer.contents = [] := TcpConnection.initial_holds.2
  have hnone : markedConn.outputBuffer.readableBytes = 0 := by
    have hlen := TcpConnection.initial_holds.1.readable_length
    exact hlen.trans (by rw [TcpConnection.initial_holds.2, List.length_nil])
  refine ⟨⟨ht.input, ht.output, ht.channel⟩, rfl, rfl, nofun, fun _ => ?_, fun _ => ?_⟩
  · rw [hempty]
    exact iff_of_false nofun (fun h => h rfl)
  · rw [TcpConnection.dueCompletes, if_pos hnone]
    exact Nat.le_refl 0

theorem Starts.sound (h : Starts content s) : s.Sound content := by
  obtain ⟨sys, w, haccepted, hw, hup⟩ := h
  cases accepted_eq.symm.trans haccepted
  change Download.onConnectionUp (System.start acceptedConn) content w = .ok s at hup
  cases content with
  | none =>
    obtain ⟨sys, hcall, hup⟩ := bind_ok hup
    cases hup
    have ho := (System.step_orderly_within marked_orderly (e := .call .shutdown) trivial trivial
      id).of_ok hcall
    obtain ⟨c, hok, rfl⟩ := System.call_ok hcall
    cases hok
    refine ⟨ho, marked_counted.shutdown.1, rfl, nofun, fun _ => nofun, fun _ => ⟨rfl, rfl, rfl⟩,
      nofun⟩
  | some file =>
    have hsent : [] ++ (FILE.fopen file).next kSize = file.take ((FILE.fopen file).advance
        kSize).position := by
      have htake := take_next (FILE.fopen file) kSize
      simpa [FILE.fopen] using htake
    have hlen : ((FILE.fopen file).next kSize).length ≤ 1024 := by
      rw [FILE.next, List.length_take]
      exact Nat.min_le_left _ _
    have hread : (FILE.fopen file).fread kSize =
        .ok ((FILE.fopen file).next kSize, (FILE.fopen file).advance kSize) := if_pos rfl
    have hsends : System.Sends ((FILE.fopen file).next kSize) w :=
      ⟨Nat.le_trans hlen (by decide), by simpa [FILE.next, FILE.fopen] using hw⟩
    simp only [onConnectionUp, openFile, Option.map_some, hread, ok_bind] at hup
    exact (send_sound marked_orderly marked_counted rfl rfl rfl rfl rfl rfl rfl rfl hsent
      hsends).of_ok hup

/-- The downloads that go well are those in which no write-complete callback runs on a connection
that has gone down. -/
theorem downloads_iff {es : List Event} (h : Starts content s)
    (hl : machine.Legal (fun _ _ => True) s es) :
    machine.Legal CompletesUp s es ↔
      ∀ fs, fs <+: es → Yields (Downloaded content) (· = Fault.lengthError) (machine.run s fs) :=
  Machine.Legal.iff_yields (fun _ _ hs he hc => hs.step he hc)
    (fun _ _ hs he hc => hs.step_fails he hc) (fun _ hs => hs.downloaded) h.sound hl

/-- A file of one byte more than `onConnection` reads. -/
def sampleFile : Bytes := List.replicate (kSize + 1) 42

/-- `write(2)` has taken what `onConnection` sent. -/
def sampleDownload : Download where
  sys := System.start { markedConn with
    pendingFunctors := [.writeCompleteCallback]
    log := ⟨List.replicate kSize 42, List.replicate kSize 42, 0, 0, 1, 0, 0⟩ }
  file := some ⟨sampleFile, kSize, 0⟩
  context := .fp
  sent := List.replicate kSize 42
  finished := false

theorem sampleDownload_starts : Starts (some sampleFile) sampleDownload := by
  refine ⟨System.start acceptedConn, .wrote kSize, accepted_eq, by decide +kernel, ?_⟩
  decide +kernel

/-- The rest of the file is sent, the server shuts the connection down, and then the peer goes. -/
def sampleRun : List Event :=
  [.functor (.wrote 1), .functor (.wrote 0), .poll ⟨true, false, false, true, false, false, false⟩,
    .handle (some []) (.wrote 0), .functor (.wrote 0)]

theorem downloads_iff_sample :
    machine.Legal CompletesUp sampleDownload sampleRun ↔
      ∀ fs, fs <+: sampleRun →
        Yields (Downloaded (some sampleFile)) (· = Fault.lengthError)
          (machine.run sampleDownload fs) :=
  downloads_iff sampleDownload_starts (by decide +kernel)

/-- `write(2)` takes the rest of the file at once, and the peer goes before the functors run. -/
def peerGoes : List Event :=
  [.functor (.wrote 1), .poll ⟨true, false, false, true, false, false, false⟩,
    .handle (some []) (.wrote 0), .functor (.wrote 0)]

theorem peerGoes_reads_closed :
    ∃ content s es, Starts content s ∧ machine.Legal (fun _ _ => True) s es ∧
      machine.run s es = .error .useAfterFree :=
  ⟨some sampleFile, sampleDownload, peerGoes, sampleDownload_starts, by decide +kernel,
    by decide +kernel⟩

theorem closed_file_read :
    ¬∀ content s es, Starts content s → machine.Legal (fun _ _ => True) s es →
      Yields (Downloaded content) (· ≠ .useAfterFree) (machine.run s es) := by
  intro hall
  obtain ⟨content, s, es, hs, hl, hrun⟩ := peerGoes_reads_closed
  have hyields := hall content s es hs hl
  rw [hrun] at hyields
  exact hyields rfl

end Muduo.Examples.Download
