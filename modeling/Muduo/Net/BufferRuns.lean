import Muduo.Net.BufferQueue

namespace Muduo.Net
open Muduo.Lib

namespace Buffer

/-- One call on a buffer. `hasWritten` comes with the bytes the caller stored behind
`beginWrite()`, `retrieveUntil` with the distance of its argument from `peek()`. -/
inductive Op
  | append (data : Bytes)
  | prepend (data : Bytes)
  | retrieve (len : Nat)
  | retrieveUntil (len : Nat)
  | retrieveAll
  | retrieveAsString (len : Nat)
  | ensureWritableBytes (len : Nat)
  | hasWritten (data : Bytes)
  | unwrite (len : Nat)
  | shrink (reserve : Nat)
  | readFd (read : Option Bytes)

namespace Op

def exec : Op → Buffer → Except Fault Buffer
  | .append data, b => b.append data
  | .prepend data, b => b.prepend data
  | .retrieve len, b => b.retrieve len
  | .retrieveUntil len, b => b.retrieveUntil (b.peek + len)
  | .retrieveAll, b => .ok b.retrieveAll
  | .retrieveAsString len, b => (b.retrieveAsString len).map Prod.snd
  | .ensureWritableBytes len, b => b.ensureWritableBytes len
  | .hasWritten data, b => b.hasWritten data
  | .unwrite len, b => b.unwrite len
  | .shrink reserve, b => b.shrink reserve
  | .readFd read, b => b.readFd read

/-- The asserted precondition, an `int` length for `shrink`, and a `readv` that stores no
more than it was given room for. -/
def Pre (b : Buffer) : Op → Prop
  | .prepend data => data.length ≤ b.prependableBytes
  | .retrieve len | .retrieveUntil len | .retrieveAsString len | .unwrite len =>
    len ≤ b.readableBytes
  | .hasWritten data => data.length ≤ b.writableBytes
  | .shrink _ => b.readableBytes < 2 ^ 31
  | .readFd (some data) => data.length ≤ b.iovBytes
  | _ => True

/-- The `size_t` sums formed for a requested length do not wrap around. -/
def NoWrap (b : Buffer) : Op → Prop
  | .append data => b.Fits data.length
  | .ensureWritableBytes len => b.Fits len
  | .shrink reserve => sizeAdd b.readableBytes reserve + kCheapPrepend < 2 ^ 64
  | _ => True

/-- How long the vector has to be for what is asked for, where it may have to grow. -/
def reach (b : Buffer) : Op → Nat
  | .append data | .readFd (some data) => b.writerIndex + data.length
  | .ensureWritableBytes len => b.writerIndex + len
  | .shrink reserve => kCheapPrepend + sizeAdd b.readableBytes reserve
  | _ => 0

instance (b : Buffer) : (op : Op) → Decidable (op.Pre b)
  | .prepend _ | .retrieve _ | .retrieveUntil _ | .retrieveAsString _ | .unwrite _
  | .hasWritten _ | .readFd (some _) => inferInstanceAs (Decidable (_ ≤ _))
  | .shrink _ => inferInstanceAs (Decidable (_ < _))
  | .append _ | .retrieveAll | .ensureWritableBytes _ | .readFd none => isTrue trivial

instance (b : Buffer) : (op : Op) → Decidable (op.NoWrap b)
  | .append _ | .ensureWritableBytes _ => inferInstanceAs (Decidable (Fits _ _))
  | .shrink _ => inferInstanceAs (Decidable (_ < _))
  | .prepend _ | .retrieve _ | .retrieveUntil _ | .retrieveAsString _ | .unwrite _
  | .hasWritten _ | .readFd _ | .retrieveAll => isTrue trivial

/-- The same call on a plain queue of bytes. -/
def onQueue : Op → Bytes → Bytes
  | .append data, q | .hasWritten data, q | .readFd (some data), q => q ++ data
  | .prepend data, q => data ++ q
  | .retrieve len, q | .retrieveUntil len, q | .retrieveAsString len, q => q.drop len
  | .retrieveAll, _ => []
  | .unwrite len, q => q.take (q.length - len)
  | .ensureWritableBytes _, q | .shrink _, q | .readFd none, q => q

end Op

/-- One call refines one queue operation. -/
theorem exec_within {b : Buffer} (h : b.Valid) (op : Op) (hp : op.Pre b) (hw : op.NoWrap b) :
    HoldsWithin (op.reach b) (op.onQueue b.contents) (op.exec b) := by
  cases op with
  | append data => exact append_within h hw
  | prepend data =>
    obtain ⟨b', he, hr⟩ := prepend_holds h hp
    rw [Op.exec, he]
    exact hr
  | retrieve len =>
    obtain ⟨b', he, hr⟩ := retrieve_holds h hp
    rw [Op.exec, he]
    exact hr
  | retrieveUntil len =>
    obtain ⟨b', he, hr⟩ := retrieveUntil_holds h hp
    rw [Op.exec, he]
    exact hr
  | retrieveAll => exact ⟨retrieveAll_valid h, retrieveAll_contents⟩
  | retrieveAsString len =>
    obtain ⟨b', he, hr⟩ := retrieveAsString_holds h hp
    rw [Op.exec, he]
    exact hr
  | ensureWritableBytes len =>
    exact (ensureWritableBytes_placed h hw).mono fun _ hb => ⟨hb.1.1, hb.1.2.1⟩
  | hasWritten data =>
    obtain ⟨b', he, hr⟩ := hasWritten_holds h hp
    rw [Op.exec, he]
    exact hr
  | unwrite len =>
    obtain ⟨b', he, hr⟩ := unwrite_holds h hp
    rw [Op.exec, he]
    exact hr
  | shrink reserve => exact shrink_within h hp hw
  | readFd read =>
    cases read with
    | none => exact ⟨h, rfl⟩
    | some data => exact readFd_within h hp

/-- A call on one of several buffers, or `swap` of two of them. -/
inductive Command (ι : Type)
  | on (i : ι) (op : Op)
  | swap (i j : ι)

section
variable {ι : Type} [DecidableEq ι]

def exchange {α : Type} (f : ι → α) (i j : ι) : ι → α :=
  Function.update (Function.update f i (f j)) j (f i)

/-- A program working on a family of buffers. -/
def machine (ι : Type) [DecidableEq ι] : Machine (ι → Buffer) (Command ι) Fault where
  enabled σ
    | .on i op => op.Pre (σ i)
    | .swap _ _ => True
  step σ
    | .on i op => do
      let b ← op.exec (σ i)
      .ok (Function.update σ i b)
    | .swap i j => .ok (exchange σ i j)

/-- The lengths asked for in a command keep clear of the end of `size_t`. -/
def NoWrap (σ : ι → Buffer) : Command ι → Prop
  | .on i op => op.NoWrap (σ i)
  | .swap _ _ => True

instance (σ : ι → Buffer) : (c : Command ι) → Decidable ((machine ι).enabled σ c)
  | .on _ _ => inferInstanceAs (Decidable (Op.Pre _ _))
  | .swap _ _ => isTrue trivial

instance (σ : ι → Buffer) : (c : Command ι) → Decidable (NoWrap σ c)
  | .on _ _ => inferInstanceAs (Decidable (Op.NoWrap _ _))
  | .swap _ _ => isTrue trivial

/-- The one way a command may fail: the vector would outgrow its maximal size. -/
def Outgrows (σ : ι → Buffer) (c : Command ι) (f : Fault) : Prop :=
  f = .lengthError ∧ ∃ i op, c = .on i op ∧ maxSize < op.reach (σ i)

/-- The abstract program: a family of byte queues. -/
def queueStep (q : ι → Bytes) : Command ι → ι → Bytes
  | .on i op => Function.update q i (op.onQueue (q i))
  | .swap i j => exchange q i j

/-- Buffer by buffer, the state is valid and holds the queue's bytes. -/
def Stands (σ : ι → Buffer) (q : ι → Bytes) : Prop := ∀ i, (σ i).Valid ∧ (σ i).contents = q i

theorem Stands.update {σ : ι → Buffer} {q : ι → Bytes} (h : Stands σ q) (i : ι) {b : Buffer}
    {c : Bytes} (hv : b.Valid) (hc : b.contents = c) :
    Stands (Function.update σ i b) (Function.update q i c) := by
  intro j
  by_cases hj : j = i
  · subst hj
    simpa using ⟨hv, hc⟩
  · simpa [hj] using h j

theorem Stands.exchange {σ : ι → Buffer} {q : ι → Bytes} (h : Stands σ q) (i j : ι) :
    Stands (exchange σ i j) (Buffer.exchange q i j) :=
  (h.update i (h j).1 (h j).2).update j (h i).1 (h i).2

/-- One command keeps every buffer in step with its queue. -/
theorem step_stands {σ : ι → Buffer} {q : ι → Bytes} (h : Stands σ q) (c : Command ι)
    (he : (machine ι).enabled σ c) (hw : NoWrap σ c) :
    Yields (fun τ => Stands τ (queueStep q c)) (Outgrows σ c) ((machine ι).step σ c) := by
  cases c with
  | on i op =>
    refine ((exec_within (h i).1 op he hw).weaken ?_).bind fun b hb => ?_
    · intro f hf
      exact ⟨hf.1, i, op, rfl, hf.2⟩
    · exact h.update i hb.1 (by rw [hb.2, (h i).2])
  | swap i j => exact h.exchange i j

/-- A family of buffers built with given sizes, and a program run on them: every buffer holds its
queue, and nothing stops the program but the vector's `length_error`, past its maximal size. -/
def RefinesQueues (c : (ι → Buffer) → Command ι → Prop) (sizes : ι → Nat) : Prop :=
  (∀ i, HoldsWithin (kCheapPrepend + sizes i) [] (new (sizes i))) ∧
    ∀ (σ : ι → Buffer) (cmds : List (Command ι)), (∀ i, new (sizes i) = .ok (σ i)) →
      (machine ι).Legal c σ cmds →
      Yields (fun τ => Stands τ (cmds.foldl queueStep (fun _ => [])))
        ((machine ι).FailsAt Outgrows σ cmds) ((machine ι).run σ cmds)

theorem buffers_refine_queues (sizes : ι → Nat) (hn : ∀ i, kCheapPrepend + sizes i < 2 ^ 64) :
    RefinesQueues NoWrap sizes := by
  have hnew : ∀ i, HoldsWithin (kCheapPrepend + sizes i) [] (new (sizes i)) := fun i =>
    (new_yields (hn i)).mono fun _ hb => ⟨hb.1, hb.2.1⟩
  refine ⟨hnew, fun σ cmds hσ hl => ?_⟩
  have hinit : Stands σ (fun _ => []) := fun i => (hnew i).of_ok (hσ i)
  exact Machine.run_refines_at (R := Stands) (fun σ q c h he hw => step_stands h c he hw) hinit hl

end

/-- A program that compacts, grows, reads past the tail and swaps. -/
def sampleProgram : List (Command Bool) :=
  [.on true (.append [1, 2, 3]), .on true (.retrieve 2), .on true (.append [4, 5, 6]),
    .on true (.prepend [7]), .on false (.readFd (some [8, 9])), .on false (.unwrite 1),
    .swap true false, .on false (.shrink 3)]

theorem buffers_refine_queues_sample :
    (machine Bool).Legal NoWrap (fun _ => ⟨List.replicate 12 0, 8, 8⟩) sampleProgram ∧
      Yields (fun τ => Stands τ (sampleProgram.foldl queueStep (fun _ => [])))
        ((machine Bool).FailsAt Outgrows (fun _ => ⟨List.replicate 12 0, 8, 8⟩) sampleProgram)
        ((machine Bool).run (fun _ => ⟨List.replicate 12 0, 8, 8⟩) sampleProgram) := by
  have hl : (machine Bool).Legal NoWrap (fun _ => ⟨List.replicate 12 0, 8, 8⟩) sampleProgram := by
    decide +kernel
  have hnew : new 4 = .ok ⟨List.replicate 12 0, 8, 8⟩ := by decide +kernel
  exact ⟨hl, (buffers_refine_queues (fun _ => 4) (by decide)).2 _ _ (fun _ => hnew) hl⟩

/-- `ensureWritableBytes(SIZE_MAX)`: `len + kCheapPrepend` wraps to 7, the compaction branch is
taken and its assertion fails. -/
theorem reserve_size_max_asserts :
    ¬RefinesQueues (fun _ _ => True) (fun _ : Unit => kInitialSize) := by
  intro h
  have hrun := h.2 (fun _ => ⟨List.replicate 1032 0, 8, 8⟩)
    [.on () (.ensureWritableBytes (2 ^ 64 - 1))] (fun _ => new_initial)
    ⟨trivial, trivial, fun _ _ => trivial⟩
  have hfault : (machine Unit).run (fun _ => ⟨List.replicate 1032 0, 8, 8⟩)
      [.on () (.ensureWritableBytes (2 ^ 64 - 1))] = .error .assertion := by
    have : ensureWritableBytes ⟨List.replicate 1032 0, 8, 8⟩ (2 ^ 64 - 1) = .error .assertion := by
      decide +kernel
    simp only [machine, Machine.run_cons, Op.exec, this, error_bind]
  rw [hfault] at hrun
  obtain ⟨_, _, _, _, _, _, herror, _⟩ := yields_error.mp hrun
  cases herror

end Buffer

end Muduo.Net
