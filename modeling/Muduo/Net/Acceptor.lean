import Muduo.Lib.Descriptors
import Muduo.Net.Basic

namespace Muduo.Net
open Muduo.Lib

/-- Who has a descriptor; `refused` is a connection in `idleFd_`. -/
inductive FdOwner
  | acceptSocket
  | idle
  | refused
  | connection (k : Nat)
  | other
  deriving DecidableEq, Repr

/-- The acceptor has it, not a connection or another thread. -/
def FdOwner.Own : FdOwner → Prop
  | .acceptSocket | .idle | .refused => True
  | .connection _ | .other => False

instance : ∀ w : FdOwner, Decidable w.Own
  | .acceptSocket | .idle | .refused => isTrue trivial
  | .connection _ | .other => isFalse id

namespace Acceptor

/-- `errno` after `accept`, by the cases of `sockets::accept`. -/
inductive Errno
  | EAGAIN
  | ECONNABORTED
  | EINTR
  | EPROTO
  | EPERM
  | EMFILE
  | unexpected
  | unknown
  deriving DecidableEq, Repr

def Errno.isExpected : Errno → Bool
  | .unexpected | .unknown => false
  | _ => true

/-- Where `handleRead` is: it has returned, or comes to one of the four system calls it makes when
there is no descriptor left. -/
inductive Place
  | atRest
  | closing
  | accepting
  | refusing
  | opening
  | destroyed
  deriving DecidableEq, Repr

end Acceptor

/-- A listening acceptor, the descriptors of its process, and the connections that its socket has
not given out yet. Connections are numbered as they come; `taken` has those that were accepted and
whether they went to the callback. An `idleFd_` of -1 is `none`. -/
structure Acceptor (limit : Nat) where
  fds : Descriptors limit FdOwner
  acceptSocket : Fin limit
  idleFd : Option (Fin limit)
  newConnectionCallback : Bool
  place : Acceptor.Place
  backlog : List Nat
  arrived : Nat
  taken : List (Nat × Bool)

namespace Acceptor

/-- `fails` is an error that the system call has without regard to the descriptors;
`errnoKept` says that writing the log line left `errno` alone. Other threads open descriptors and
close their own, those of connections among them. -/
inductive Event (limit : Nat)
  | arrive
  | handleRead (fails : Option Errno) (errnoKept : Bool)
  | proceed (fails : Option Errno)
  | openOther
  | closeOther (fd : Fin limit)
  | destroy
  deriving Repr

variable {limit : Nat}

/-- The constructor and `listen`. -/
def new (fds : Descriptors limit FdOwner) (newConnectionCallback : Bool) :
    Except Fault (Acceptor limit) :=
  match fds.lowest with
  | none => .error .fatal
  | some acceptSocket =>
    let fds := fds.allot acceptSocket .acceptSocket
    match fds.lowest with
    | none => .error .assertion
    | some idleFd => .ok {
      fds := fds.allot idleFd .idle
      acceptSocket := acceptSocket
      idleFd := some idleFd
      newConnectionCallback := newConnectionCallback
      place := .atRest
      backlog := []
      arrived := 0
      taken := [] }

variable (s : Acceptor limit)

/-- The system call `accept`: the descriptor and the connection it is for. -/
def accept (fails : Option Errno) : Except Errno (Fin limit × Nat) :=
  match s.fds.lowest with
  | none => .error .EMFILE
  | some fd =>
    match fails with
    | some e => .error e
    | none =>
      match s.backlog with
      | [] => .error .EAGAIN
      | k :: _ => .ok (fd, k)

/-- Connection `k` comes out of the backlog. -/
def take (k : Nat) (handed : Bool) : Acceptor limit :=
  { s with backlog := s.backlog.tail, taken := s.taken ++ [(k, handed)] }

/-- `handleRead`, up to its first system call after `accept`. -/
def handleRead (fails : Option Errno) (errnoKept : Bool) : Except Fault (Acceptor limit) :=
  match s.accept fails with
  | .ok (fd, k) =>
    if s.newConnectionCallback then .ok { s.take k true with fds := s.fds.allot fd (.connection k) }
    else .ok { s.take k false with fds := (s.fds.allot fd (.connection k)).release fd }
  | .error e =>
    if e.isExpected then
      if e = .EMFILE ∧ errnoKept then .ok { s with place := .closing } else .ok s
    else .error .fatal

/-- The next system call of the branch for `EMFILE`. -/
def proceed (fails : Option Errno) : Acceptor limit :=
  match s.place with
  | .closing => { s with fds := s.fds.close s.idleFd, place := .accepting }
  | .accepting =>
    match s.accept fails with
    | .ok (fd, k) =>
      { s.take k false with
        fds := s.fds.allot fd .refused, idleFd := some fd, place := .refusing }
    | .error _ => { s with idleFd := none, place := .refusing }
  | .refusing => { s with fds := s.fds.close s.idleFd, place := .opening }
  | .opening =>
    match s.fds.lowest, fails with
    | some fd, none =>
      { s with fds := s.fds.allot fd .idle, idleFd := some fd, place := .atRest }
    | _, _ => { s with idleFd := none, place := .atRest }
  | _ => s

def openOther : Acceptor limit :=
  match s.fds.lowest with
  | none => s
  | some fd => { s with fds := s.fds.allot fd .other }

/-- `~Acceptor` and the destructor of its socket. -/
def destroy : Acceptor limit :=
  { s with fds := (s.fds.close s.idleFd).release s.acceptSocket, place := .destroyed }

def step : Event limit → Except Fault (Acceptor limit)
  | .arrive => .ok { s with backlog := s.backlog ++ [s.arrived], arrived := s.arrived + 1 }
  | .handleRead fails errnoKept => s.handleRead fails errnoKept
  | .proceed fails => .ok (s.proceed fails)
  | .openOther => .ok s.openOther
  | .closeOther fd => .ok { s with fds := s.fds.release fd }
  | .destroy => .ok s.destroy

/-- The others close what they have. -/
def enabled : Event limit → Prop
  | .arrive => s.place ≠ .destroyed
  | .handleRead _ _ => s.place = .atRest
  | .proceed _ => s.place ≠ .atRest ∧ s.place ≠ .destroyed
  | .openOther => True
  | .closeOther fd => ∃ w ∈ s.fds.owner fd, ¬w.Own
  | .destroy => s.place = .atRest

instance : ∀ e, Decidable (s.enabled e)
  | .arrive => inferInstanceAs (Decidable (_ ≠ _))
  | .handleRead _ _ | .destroy => inferInstanceAs (Decidable (_ = _))
  | .proceed _ => inferInstanceAs (Decidable (_ ∧ _))
  | .openOther => isTrue trivial
  | .closeOther fd => inferInstanceAs (Decidable (∃ w ∈ s.fds.owner fd, ¬w.Own))

def machine : Machine (Acceptor limit) (Event limit) Fault := ⟨enabled, step⟩

instance (s : Acceptor limit) (e : Event limit) : Decidable (machine.enabled s e) :=
  inferInstanceAs (Decidable (s.enabled e))

end Acceptor

end Muduo.Net
