import Mathlib.Algebra.Group.Int.Defs
import Mathlib.Data.List.AList
import Libftpp.Host

/-! The server (`server.hpp`, `server.cpp`): a listening socket, the registered
clients by descriptor and by ID, the set of watched descriptors, one partial
message per descriptor, a queue of complete messages, and one action per type.
What the system calls answer and what an action does are arguments. -/
namespace Libftpp
open Program World

/-- `NB_CONNECTION`. -/
def NB_CONNECTION : Nat := 1000

/-- `READ_BUFFER_SIZE`. -/
def READ_BUFFER_SIZE : Nat := 4096

/-- The largest `int`. -/
def INT_MAX : Int := 2 ^ 31 - 1

/-- `class Server`. Actions are known by number. -/
structure Server where
  socket : Int
  maxFd : Int
  nextId : Int
  running : Bool
  address : String
  port : UInt64
  active : FdSet
  readyRead : FdSet
  clients : AList fun _ : Int => Int
  clientsToFd : AList fun _ : Int => Int
  tasks : AList fun _ : Int32 => Nat
  msgs : List Message
  partialMsgs : AList fun _ : Int => Message

/-- The answers of the system calls `start` makes; an `errno` where one failed. -/
structure StartScript where
  socket : OpenResult
  reuse : Option Int
  validAddress : Bool
  bound : Option Int
  listening : Option Int

/-- A message an action sends, with the result of its `::send`. -/
structure Reply where
  message : Message
  clientId : Int
  result : SendResult

/-- What an `int&` refers to: an `int` of the caller, or the descriptor that
`_clientsToFd` holds for this ID. -/
inductive FdRef where
  | value (fd : Int)
  | entry (clientId : Int)

/-- One round of `select` with a positive result: the descriptors it reports,
what `accept` and `recv` answer in this round, and what a `close` or an output
that fails while a descriptor is served leaves in `errno`. Nobody looks at what
these return. -/
structure Round where
  ready : Int → Bool
  accept : OpenResult
  recv : Int → RecvScript READ_BUFFER_SIZE
  aside : Int → Option Int

/-- The `select` that ends the loop of `update`. -/
inductive SelectEnd where
  | timeout
  | failed (errno : Int)

namespace Server

/-- `Server::Server`. The constructors leave the two `fd_set`s indeterminate. -/
def new (address : String) (port : UInt64) (active readyRead : FdSet) : Server where
  socket := -1
  maxFd := -1
  nextId := 0
  running := true
  address := address
  port := port
  active := active
  readyRead := readyRead
  clients := ∅
  clientsToFd := ∅
  tasks := ∅
  msgs := []
  partialMsgs := ∅

/-- `_clients.find`. -/
def clientOf (server : Server) (fd : Int) : Option Int := server.clients.lookup fd

/-- `_clientsToFd.find`. -/
def fdOf (server : Server) (clientId : Int) : Option Int := server.clientsToFd.lookup clientId

/-- `_tasks.find`. -/
def taskOf (server : Server) (messageType : Int32) : Option Nat := server.tasks.lookup messageType

/-- `_partialMsgs[fd]`, which makes a missing entry. -/
def partialOf (server : Server) (fd : Int) : Message := (server.partialMsgs.lookup fd).getD .new

/-- Runs an operation of the partial message of a descriptor. -/
def onPartial (fd : Int) (operation : Program Exn Message α) : Call Server α :=
  zoom (·.object.partialOf fd)
    (fun world pending => { world with
      object := { world.object with partialMsgs := world.object.partialMsgs.insert fd pending } }) operation

/-- Runs an operation of that partial message and the queue. -/
def onInbox (fd : Int) (operation : Program Exn Inbox α) : Call Server α :=
  zoom (fun world => ⟨world.object.partialOf fd, world.object.msgs⟩)
    (fun world inbox => { world with
      object := { world.object with
        partialMsgs := world.object.partialMsgs.insert fd inbox.pending
        msgs := inbox.msgs } }) operation

/-! ### Connections -/

/-- What `_acceptNewConnection` enters for a new descriptor. -/
def register (server : Server) (connfd : Int) (selectable : Selectable connfd) : Server :=
  { server with
    maxFd := if server.maxFd < connfd then connfd else server.maxFd
    active := server.active.set connfd selectable
    readyRead := server.readyRead.set connfd selectable
    clients := server.clients.insert connfd server.nextId
    clientsToFd := server.clientsToFd.insert server.nextId connfd
    nextId := server.nextId + 1 }

/-- `Server::_acceptNewConnection`. -/
def acceptNewConnection (result : OpenResult) : Call Server Unit := do
  let world ← get
  if world.object.socket < 0 then setErrno EBADF
  else
    match result with
    | .failed errno => setErrno errno
    | .opened connfd =>
      emit (.accepted connfd)
      if NB_CONNECTION ≤ world.object.clients.entries.length then
        emit (.printed "Max connections reached, closing new connection\n")
        emit (.closed connfd)
      else if selectable : Selectable connfd then
        -- `_next_id` is an `int`.
        if world.object.nextId = INT_MAX then undefinedBehaviour
        else
          emit (.assigned connfd world.object.nextId)
          alter fun server => server.register connfd selectable
      else undefinedBehaviour

/-- Reads an `int&`. The entry it refers to may have been erased. -/
def readFd : FdRef → Call Server Int
  | .value fd => pure fd
  | .entry clientId => do
    let world ← get
    match world.object.fdOf clientId with
    | some fd => pure fd
    | none => undefinedBehaviour

/-- What `_clearClient` takes out of the registry. -/
def unregister (server : Server) (fd clientId : Int) : Server :=
  { server with
    active := if fd > 2 then server.active.clr fd else server.active
    clients := server.clients.erase fd
    clientsToFd := server.clientsToFd.erase clientId }

/-- `_partialMsgs.erase`. -/
def dropPartial (server : Server) (fd : Int) : Server :=
  { server with partialMsgs := server.partialMsgs.erase fd }

/-- `Server::_clearClient`. The descriptor is passed by reference, and is read
once more when the registry has been changed. -/
def clearClient (ref : FdRef) : Call Server Unit := do
  let fd ← readFd ref
  let world ← get
  match world.object.clientOf fd with
  | none => pure ()
  | some clientId =>
    if fd > 2 then emit (.closed fd) else pure ()
    emit (.removed fd clientId)
    alter fun server => server.unregister fd clientId
    let again ← readFd ref
    alter fun server => server.dropPartial again

/-- `Server::_clearAll`. -/
def clearAll : Call Server Unit := do
  emit .discarded
  alter fun server => { server with
    clients := ∅
    clientsToFd := ∅
    partialMsgs := ∅
    msgs := []
    active := .zero }

/-- The first half of `Server::stop`. -/
def closeSocket : Call Server Unit := do
  let world ← get
  if world.object.socket ≥ 0 then
    emit (.printed "Closing server socket.\n")
    emit (.closed world.object.socket)
    alter fun server => { server with socket := -1 }

/-- The loop of `Server::stop`. -/
def closeClients (fds : List Int) : Call Server Unit :=
  fds.forM fun fd =>
    if fd ≤ 2 then pure ()
    else do
      emit (.closed fd)
      alter fun server => { server with active := server.active.clr fd }

/-- `Server::stop`. -/
def stop : Call Server Unit := do
  alter fun server => { server with running := false }
  closeSocket
  let world ← get
  closeClients world.object.clients.keys
  clearAll

/-- A system call of `start` has failed: stop, and throw with `errno`. -/
def giveUp (errno : Int) (text : String) : Call Server Unit := do
  setErrno errno
  stop
  let world ← get
  raise (.runtimeError (text ++ toString world.errno))

/-! ### Reception -/

/-- The `while (isComplet())` loop of `_receiveClientMsg`. -/
def decodeMessages [Platform] (fd : Int) : Call Server Unit := do
  let before ← get
  onInbox fd (Inbox.extractMessages (some fd))
  let after ← get
  emit (.queued fd (after.object.msgs.drop before.object.msgs.length))

section Calls
variable [Platform]

/-- The body of the `recv` loop of `_receiveClientMsg`. -/
def receiveChunk (fd : Int) (chunk : Chunk READ_BUFFER_SIZE) : Call Server Unit := do
  emit (.received fd chunk.bytes)
  onPartial fd (Message.appendBytes (some chunk.bytes) (UInt64.ofNat chunk.bytes.length))
  decodeMessages fd
  onPartial fd (Message.onBuffer DataBuffer.clear)

/-- `Server::_receiveClientMsg`. -/
def receiveClientMsg (fd : Int) (script : RecvScript READ_BUFFER_SIZE) : Call Server Bool := do
  let world ← get
  if ¬ Selectable fd then undefinedBehaviour
  else if fd ∉ world.object.readyRead.fds then pure false
  else
    script.chunks.forM (receiveChunk fd)
    match script.last with
    | .endOfFile => pure false
    | .failed errno =>
      setErrno errno
      pure (errno = EAGAIN ∨ errno = EWOULDBLOCK)

/-- `Server::start`. -/
def start (script : StartScript) (port : UInt64) : Call Server Unit :=
  match script.socket with
  | .failed errno => do
    setErrno errno
    alter fun server => { server with socket := -1 }
    raise (.runtimeError "Cannot create socket")
  | .opened fd => do
    emit (.opened fd)
    alter fun server => { server with socket := fd }
    script.reuse.forM fun errno => do
      setErrno errno
      emit (.printed ("setsockopt SO_REUSEADDR failed: " ++ Platform.strerror errno ++ "\n"))
    let world ← get
    if world.object.address ≠ "" ∧ ¬ script.validAddress then
      stop
      raise (.runtimeError ("Invalid address: " ++ world.object.address))
    else
      match script.bound with
      | some errno => giveUp errno "Failed to bind on socket. errno: "
      | none =>
        emit (.bound world.object.address (if port ≠ 0 then port else world.object.port).toUInt16)
        if selectable : Selectable fd then
          alter fun server => { server with maxFd := fd, active := FdSet.zero.set fd selectable }
          match script.listening with
          | some errno => giveUp errno "Failed to listen on socket. errno: "
          | none => emit .started
        else undefinedBehaviour

/-! ### Sending -/

/-- `Server::sendTo`. It hands `_clearClient` a reference into `_clientsToFd`. -/
def sendTo (message : Message) (clientId : Int) (result : SendResult) : Call Server Unit := do
  let world ← get
  match world.object.fdOf clientId with
  | none => pure ()
  | some fd =>
    if ¬ Selectable fd then undefinedBehaviour
    else if fd ∉ world.object.active.fds then pure ()
    else
      let data ← observe message Message.getSerializedData
      if data = [] then pure ()
      else
        match result with
        | .took count => emit (.sent fd (data.take count))
        | .failed errno =>
          setErrno errno
          clearClient (.entry clientId)
          emit (.printed ("Failed to send message to client " ++ toString clientId ++ "\n"))

/-- `Server::sendToArray`, with the answer for each ID in turn. -/
def sendToArray (message : Message) (clientIds : List (Int × SendResult)) : Call Server Unit :=
  clientIds.forM fun (clientId, result) => sendTo message clientId result

/-- `Server::defineAction`. -/
def defineAction (messageType : Int32) (action : Nat) : Call Server Unit :=
  alter fun server => { server with tasks := server.tasks.insert messageType action }

/-! ### The update loop -/

/-- What the loop over the descriptors does with one that is ready. -/
def serve (round : Round) (fd : Int) : Call Server Unit := do
  let world ← get
  if fd = world.object.socket then acceptNewConnection round.accept
  else
    let connected ← receiveClientMsg fd (round.recv fd)
    if connected then pure ()
    else
      clearClient (.value fd)
      alter fun server => server.dropPartial fd

/-- One descriptor of the loop over the descriptors. -/
def visit (round : Round) (fd : Int) : Call Server Unit := do
  let world ← get
  if fd ∉ world.object.readyRead.fds then pure ()
  else
    serve round fd
    (round.aside fd).forM setErrno

/-- The loop over the descriptors from this one on; `_max_fd` is read anew in
each round, and an `fd_set` has no place for descriptors beyond its capacity. -/
def scanFrom (round : Round) (fd : Nat) : Nat → Call Server Unit
  | 0 => do
    let world ← get
    if (fd : Int) ≤ world.object.maxFd then undefinedBehaviour else pure ()
  | remaining + 1 => do
    let world ← get
    if (fd : Int) ≤ world.object.maxFd then
      visit round fd
      scanFrom round (fd + 1) remaining
    else pure ()

/-- The `while (_running)` loop; `false` when `update` returns from inside it.
Whatever `select` returned last, `errno` is looked at. -/
def selectLoop (last : SelectEnd) : List Round → Call Server Bool
  | [] => do
    alter fun server => { server with readyRead := server.active }
    match last with
    | .timeout => pure ()
    | .failed errno => setErrno errno
    let world ← get
    if world.errno = EBADF ∨ world.errno = EINTR then
      emit (.printed "Select interrupted, stopping server...\n")
      pure false
    else
      alter fun server => { server with running := false }
      pure true
  | round :: rounds => do
    alter fun server => { server with readyRead := server.active.select round.ready }
    scanFrom round 0 FD_SETSIZE
    selectLoop last rounds

/-- What an action does besides reading its message. -/
def act (reaction : Reaction Reply) : Call Server Unit := do
  reaction.replies.forM fun reply => sendTo reply.message reply.clientId reply.result
  match reaction.throws with
  | none => pure ()
  | some what => raise (.fromAction what)

/-- `it->second(clientId, _msgs[i])`. -/
def invoke (reaction : Reaction Reply) (index action : Nat) (clientId : Int) (message : Message) :
    Call Server Unit := do
  emit (.invoked index 0 action (some clientId) message)
  alter fun server => { server with msgs := server.msgs.set index (message.readBy reaction.reads) }
  noting (act reaction)

/-- One round of the loop over `_msgs`. -/
def dispatchMessage (react : Nat → Reaction Reply) (index : Nat) : Call Server Unit := do
  let world ← get
  match world.object.msgs[index]? with
  | none => undefinedBehaviour
  | some message =>
    match world.object.taskOf message.type with
    | none => pure ()
    | some action =>
      match message.fd with
      | none => undefinedBehaviour
      | some fd =>
        match world.object.clientOf fd with
        | none => pure ()
        | some clientId => invoke (react index) index action clientId message

/-- The loop over `_msgs`, with so many messages left to do. -/
def dispatchFrom (react : Nat → Reaction Reply) (index : Nat) : Nat → Call Server Unit
  | 0 => pure ()
  | remaining + 1 => do
    dispatchMessage react index
    dispatchFrom react (index + 1) remaining

/-- The second half of `update`. An exception leaves the queue as it is. -/
def dispatch (react : Nat → Reaction Reply) : Call Server Unit := do
  emit .dispatching
  let world ← get
  dispatchFrom react 0 world.object.msgs.length
  emit .discarded
  alter fun server => { server with msgs := [] }

/-- `Server::update`. -/
def update (rounds : List Round) (last : SelectEnd) (react : Nat → Reaction Reply) : Call Server Unit := do
  alter fun server => { server with running := true }
  let ended ← selectLoop last rounds
  if ended then dispatch react else pure ()

end Calls
end Server
end Libftpp
