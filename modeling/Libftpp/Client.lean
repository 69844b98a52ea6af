import Mathlib.Data.List.AList
import Libftpp.Host

/-! The client (`client.hpp`, `client.cpp`): one connection, one partial message
that is fed by every reception, a queue of complete messages, and the actions
registered for their types. What `select`, `recv`, `send` and `connect` answer
and what an action does are arguments. -/
namespace Libftpp
open Program World

/-- `MAX_READ_BUFFER`. -/
def MAX_READ_BUFFER : Nat := 16000

/-- `class Client`. Actions are known by number. -/
structure Client where
  msgs : List Message
  triggers : AList fun _ : Int32 => List Nat
  tmpMsg : Message
  fd : Int

/-- The answers of the system calls `connect` makes: whether the address can be
resolved, and the `errno` of a `::connect` that failed. -/
structure ConnectScript where
  socket : OpenResult
  resolves : Bool
  refused : Option Int

namespace Client

/-- `Client::Client()`. -/
def new : Client where
  msgs := []
  triggers := ∅
  tmpMsg := .new
  fd := -1

/-- `_triggers.find`. -/
def triggersOf (client : Client) (messageType : Int32) : Option (List Nat) :=
  client.triggers.lookup messageType

/-- `Client::disconnect`. -/
def disconnect : Call Client Unit := do
  let world ← get
  if world.object.fd > 0 then
    emit (.closed world.object.fd)
  alter fun client => { client with fd := -1 }

/-- `Client::defineAction`. -/
def defineAction (messageType : Int32) (action : Nat) : Call Client Unit :=
  alter fun client => { client with
    triggers := client.triggers.insert messageType ((client.triggersOf messageType).getD [] ++ [action]) }

/-- Runs an operation of the partial message. -/
def onTmpMsg (operation : Program Exn Message α) : Call Client α :=
  zoom (·.object.tmpMsg) (fun world tmpMsg => { world with object := { world.object with tmpMsg } }) operation

/-- Runs an operation of the partial message and the queue. -/
def onInbox (operation : Program Exn Inbox α) : Call Client α :=
  zoom (fun world => ⟨world.object.tmpMsg, world.object.msgs⟩)
    (fun world inbox => { world with
      object := { world.object with tmpMsg := inbox.pending, msgs := inbox.msgs } }) operation

variable [Platform]

/-- `Client::_networkError`. -/
def networkError (errorMsg : String) : Call Client Unit := do
  disconnect
  let world ← get
  raise (.runtimeError
    (errorMsg ++ Platform.strerror world.errno ++ " (errno: " ++ toString world.errno ++ ")"))

/-- `Client::connect`. -/
def connect (script : ConnectScript) (address : String) (port : UInt64) : Call Client Unit := do
  disconnect
  match script.socket with
  | .failed errno =>
    setErrno errno
    alter fun client => { client with fd := -1 }
    networkError "Cannot create socket"
  | .opened fd =>
    emit (.opened fd)
    alter fun client => { client with fd := fd }
    if ¬ script.resolves then networkError ("Cannot resolve hostname: " ++ address)
    else
      emit (.connecting address port.toUInt16)
      match script.refused with
      | some errno =>
        setErrno errno
        networkError "Cannot connect to socket: "
      | none => pure ()

/-- `Client::send`. Nobody looks at what `::send` returns. -/
def send (message : Message) (result : SendResult) : Call Client Unit := do
  let data ← observe message Message.getSerializedData
  let world ← get
  if world.object.fd < 0 then setErrno EBADF
  else
    match result with
    | .took count => emit (.sent world.object.fd (data.take count))
    | .failed errno => setErrno errno

/-- The `recv` loop of `_receiveMessage`: everything goes into the partial message. -/
def receiveChunks (chunks : List (Chunk MAX_READ_BUFFER)) : Call Client Unit :=
  match chunks with
  | [] => pure ()
  | chunk :: rest => do
    let world ← get
    emit (.received world.object.fd chunk.bytes)
    onTmpMsg (Message.appendBytes (some chunk.bytes) (UInt64.ofNat chunk.bytes.length))
    receiveChunks rest

/-- The `while (_tmpMsg.isComplet())` loop of `_receiveMessage`. -/
def decodeMessages : Call Client Unit := do
  let before ← get
  onInbox (Inbox.extractMessages none)
  let after ← get
  emit (.queued after.object.fd (after.object.msgs.drop before.object.msgs.length))

/-- `Client::_receiveMessage`. -/
def receiveMessage (script : RecvScript MAX_READ_BUFFER) : Call Client Unit := do
  receiveChunks script.chunks
  match script.last with
  | .endOfFile => disconnect
  | .failed errno =>
    setErrno errno
    if errno ≠ EAGAIN ∧ errno ≠ EWOULDBLOCK then
      if errno = ENOTCONN ∨ errno = ECONNRESET ∨ errno = EPIPE ∨ errno = EBADF then disconnect
      else networkError "Cannot receive message: "
    else decodeMessages

/-- What an action does besides reading its message. -/
def act (reaction : Reaction (Message × SendResult)) : Call Client Unit := do
  reaction.replies.forM fun reply => send reply.1 reply.2
  match reaction.throws with
  | none => pure ()
  | some what => raise (.fromAction what)

/-- `funct(msg)`, for the message at this place of the queue. -/
def invoke (reaction : Reaction (Message × SendResult)) (index slot action : Nat) (message : Message) :
    Call Client Unit := do
  emit (.invoked index slot action none message)
  alter fun client => { client with msgs := client.msgs.set index (message.readBy reaction.reads) }
  noting (act reaction)

/-- The inner loop of `update`: every action registered for the type. -/
def invokeAll (react : Nat → Nat → Reaction (Message × SendResult)) (index slot : Nat) (actions : List Nat) :
    Call Client Unit :=
  match actions with
  | [] => pure ()
  | action :: rest => do
    let world ← get
    match world.object.msgs[index]? with
    | none => undefinedBehaviour
    | some message => invoke (react index slot) index slot action message
    invokeAll react index (slot + 1) rest

/-- One round of the loop over `_msgs`. -/
def dispatchMessage (react : Nat → Nat → Reaction (Message × SendResult)) (index : Nat) : Call Client Unit := do
  let world ← get
  match world.object.msgs[index]? with
  | none => undefinedBehaviour
  | some message =>
    match world.object.triggersOf message.type with
    | none => pure ()
    | some actions => invokeAll react index 0 actions

/-- The loop over `_msgs`, with so many messages left to do. -/
def dispatchFrom (react : Nat → Nat → Reaction (Message × SendResult)) (index : Nat) :
    Nat → Call Client Unit
  | 0 => pure ()
  | remaining + 1 => do
    dispatchMessage react index
    dispatchFrom react (index + 1) remaining

/-- The second half of `update`. An exception leaves the queue as it is. -/
def dispatch (react : Nat → Nat → Reaction (Message × SendResult)) : Call Client Unit := do
  emit .dispatching
  let world ← get
  dispatchFrom react 0 world.object.msgs.length
  emit .discarded
  alter fun client => { client with msgs := [] }

/-- The `select` loop of `update`. Each poll finds the descriptor ready, with
these results of `recv`; afterwards `select` finds nothing. -/
def poll (polls : List (RecvScript MAX_READ_BUFFER)) : Call Client Unit := do
  let world ← get
  if world.object.fd > 0 then
    if ¬ Selectable world.object.fd then undefinedBehaviour
    else
      match polls with
      | [] => pure ()
      | script :: rest => do
        receiveMessage script
        poll rest

/-- `Client::update`. The socket is `healthy` when `getsockopt` reports no error. -/
def update (healthy : Bool) (polls : List (RecvScript MAX_READ_BUFFER))
    (react : Nat → Nat → Reaction (Message × SendResult)) : Call Client Unit := do
  let world ← get
  -- `_isConnected`
  if world.object.fd ≤ 0 ∨ ¬ healthy then pure ()
  else do
    poll polls
    dispatch react

end Client
end Libftpp
