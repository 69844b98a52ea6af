import Mathlib.Data.Finset.Basic
import Libftpp.Extraction

/-! What the process exchanges with its surroundings. The kernel's answers and
the behaviour of registered actions are inputs; everything observable is written
to a log, in order: descriptors opened and closed, clients registered and
removed, bytes received and sent, messages queued, actions invoked. No modelled
function reads the log. -/
namespace Libftpp
open Program

def EINTR : Int := 4
def EBADF : Int := 9
def EAGAIN : Int := 11
def EWOULDBLOCK : Int := 11
def EPIPE : Int := 32
def ECONNRESET : Int := 104
def ENOTCONN : Int := 107

/-- The capacity of an `fd_set`. -/
def FD_SETSIZE : Nat := 1024

/-- `FD_SET` and its kin have a meaning for these descriptors only. -/
def Selectable (fd : Int) : Prop := 0 ≤ fd ∧ fd < FD_SETSIZE

instance (fd : Int) : Decidable (Selectable fd) := inferInstanceAs (Decidable (_ ∧ _))

/-- `fd_set`. -/
structure FdSet where
  fds : Finset Int
  inside : ∀ fd ∈ fds, Selectable fd

namespace FdSet

/-- `FD_ZERO`. -/
def zero : FdSet := ⟨∅, by simp⟩

/-- `FD_SET`. -/
def set (fdSet : FdSet) (fd : Int) (selectable : Selectable fd) : FdSet where
  fds := insert fd fdSet.fds
  inside := by simpa using ⟨selectable, fdSet.inside⟩

/-- `FD_CLR`. -/
def clr (fdSet : FdSet) (fd : Int) : FdSet :=
  ⟨fdSet.fds.erase fd, fun other member => fdSet.inside other (Finset.mem_of_mem_erase member)⟩

/-- What `select` leaves of a set: those of its members that are ready. -/
def select (fdSet : FdSet) (ready : Int → Bool) : FdSet :=
  ⟨fdSet.fds.filter (ready · = true), fun fd member => fdSet.inside fd (Finset.mem_of_mem_filter fd member)⟩

end FdSet

/-- What one successful `recv` into a buffer of this capacity hands over. -/
structure Chunk (capacity : Nat) where
  bytes : List UInt8
  nonempty : bytes ≠ []
  fits : bytes.length ≤ capacity

/-- A `recv` that hands over nothing: end-of-file, or -1 with this `errno`. -/
inductive RecvEnd where
  | endOfFile
  | failed (errno : Int)
  deriving DecidableEq

/-- Nothing more to read for now. -/
def RecvEnd.WouldBlock (last : RecvEnd) : Prop := last = .failed EAGAIN ∨ last = .failed EWOULDBLOCK

instance (last : RecvEnd) : Decidable last.WouldBlock := inferInstanceAs (Decidable (_ ∨ _))

/-- The results of the `recv` calls of one receive loop. -/
structure RecvScript (capacity : Nat) where
  chunks : List (Chunk capacity)
  last : RecvEnd

/-- The bytes one receive loop gets. -/
def RecvScript.bytes (script : RecvScript capacity) : List UInt8 := script.chunks.flatMap Chunk.bytes

/-- `socket` and `accept` return a descriptor, or -1 with this `errno`. -/
inductive OpenResult where
  | opened (fd : Nat)
  | failed (errno : Int)
  deriving DecidableEq

/-- `send` takes over so many bytes, or returns -1 with this `errno`. -/
inductive SendResult where
  | took (count : Nat)
  | failed (errno : Int)
  deriving DecidableEq

/-- A `send` that returned a count has taken at least one byte and none it was
not given. -/
def SendResult.Allowed (requested : Nat) : SendResult → Prop
  | .took count => 1 ≤ count ∧ count ≤ requested
  | .failed _ => True

/-- What an action does with the message it is given: it reads so many bytes of
it, sends answers, and may throw. -/
structure Reaction (reply : Type) where
  reads : Nat
  replies : List reply
  throws : Option String

/-- An action that does nothing. -/
def Reaction.idle : Reaction reply := ⟨0, [], none⟩

/-- Actions take a `const Message&`, but the read cursor is `mutable`. -/
def Message.readBy (message : Message) (reads : Nat) : Message :=
  message.advance (min reads message.unread.length)

/-- The observable history of one process. -/
inductive Event where
  | opened (fd : Int)
  | accepted (fd : Int)
  | closed (fd : Int)
  | bound (address : String) (port : UInt16)
  | connecting (address : String) (port : UInt16)
  | started
  | assigned (fd clientId : Int)
  | removed (fd clientId : Int)
  | received (fd : Int) (bytes : List UInt8)
  | queued (fd : Int) (messages : List Message)
  | dispatching
  | invoked (index slot action : Nat) (clientId : Option Int) (message : Message)
  | threw
  | discarded
  | sent (fd : Int) (bytes : List UInt8)
  | printed (text : String)
  deriving DecidableEq

/-- An object together with the process it lives in. -/
structure World (σ : Type) where
  object : σ
  errno : Int
  log : List Event

/-- A member function. -/
abbrev Call (σ α : Type) := Program Exn (World σ) α

namespace World
variable {σ : Type}

/-- Adds an event to the log. -/
def emit (event : Event) : Call σ Unit := modify fun world => { world with log := world.log ++ [event] }

/-- What a failing system call does to `errno`. -/
def setErrno (errno : Int) : Call σ Unit := modify fun world => { world with errno }

/-- Changes the object. -/
def alter (change : σ → σ) : Call σ Unit :=
  modify fun world => { world with object := change world.object }

/-- Notes in the log when an exception gets out of this call. -/
def noting (call : Call σ α) : Call σ α := fun world =>
  match call.run world with
  | .error (.thrown error) after => .error (.thrown error) { after with log := after.log ++ [.threw] }
  | result => result

@[simp] theorem run_emit (event : Event) (world : World σ) :
    (emit event).run world = .ok () { world with log := world.log ++ [event] } := rfl

@[simp] theorem run_setErrno (errno : Int) (world : World σ) :
    (setErrno errno).run world = .ok () { world with errno } := rfl

@[simp] theorem run_alter (change : σ → σ) (world : World σ) :
    (alter change).run world = .ok () { world with object := change world.object } := rfl

theorem run_noting (call : Call σ α) (world : World σ) :
    (noting call).run world =
      match call.run world with
      | .error (.thrown error) after => .error (.thrown error) { after with log := after.log ++ [.threw] }
      | result => result := rfl

theorem noting_returns {call : Call σ α} :
    (noting call).run before = .ok value after ↔ call.run before = .ok value after := by
  rw [run_noting]
  rcases call.run before with ⟨_, middle⟩ | ⟨error | _ | _, middle⟩ <;> simp

theorem noting_throws {call : Call σ α} :
    (noting call).run before = .error (.thrown error) after ↔
      ∃ middle, call.run before = .error (.thrown error) middle ∧
        after = { middle with log := middle.log ++ [.threw] } := by
  rw [run_noting]
  rcases call.run before with ⟨_, middle⟩ | ⟨error | _ | _, middle⟩ <;> simp [eq_comm]

end World
end Libftpp
