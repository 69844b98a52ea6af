import Libftpp.BoundedQueue
import Libftpp.DataBuffer

/-! The ring buffer (`ring_buffer.hpp`, `ring_buffer.cpp`): a vector of bytes that
never grows, the index the next byte is written to, the index the next byte is
read from, and how many bytes lie between the two. Each is a `size_t`. -/
namespace Libftpp
open Program

/-- `class RingBuffer`. -/
structure RingBuffer where
  buffer : ByteVector
  head : UInt64
  tail : UInt64
  size : UInt64

/-- `MAX_BUFFER_SIZE`. -/
def MAX_BUFFER_SIZE : UInt64 := 65550

namespace RingBuffer

/-- `RingBuffer::RingBuffer(const size_t&)`. The vector starts with zeros, and
cannot be made larger than `max_size()`. -/
def new (size_buffer : UInt64) (fits : size_buffer.toNat ≤ maxSize) : RingBuffer where
  buffer := ⟨List.replicate size_buffer.toNat 0, by rwa [List.length_replicate]⟩
  head := 0
  tail := 0
  size := 0

/-- `RingBuffer::RingBuffer()`. -/
def newDefault : RingBuffer := new MAX_BUFFER_SIZE (by decide)

/-- `RingBuffer::isEmpty`. -/
def isEmpty (ring : RingBuffer) : Bool := ring.size = 0

/-- `RingBuffer::isFull`. -/
def isFull (ring : RingBuffer) : Bool := ring.buffer.size = ring.size

/-- `RingBuffer::capacity`. -/
def capacity (ring : RingBuffer) : UInt64 := ring.buffer.size

/-- `RingBuffer::capacityAvailable`. -/
def capacityAvailable (ring : RingBuffer) : UInt64 := ring.buffer.size - ring.size

/-- The value of `_buffer[index]`. -/
def load (index : UInt64) : Program Exn RingBuffer UInt8 := do
  let ring ← get
  match ring.buffer.bytes[index.toNat]? with
  | some byte => pure byte
  | none => undefinedBehaviour

/-- `_buffer[index] = byte`. -/
def store (index : UInt64) (byte : UInt8) : Program Exn RingBuffer Unit := do
  let ring ← get
  if index.toNat < ring.buffer.bytes.length then
    set { ring with
      buffer := ⟨ring.buffer.bytes.set index.toNat byte, by rw [List.length_set]; exact ring.buffer.fits⟩ }
  else undefinedBehaviour

/-- `(index + 1) % _buffer.size()`. -/
def advance (index : UInt64) : Program Exn RingBuffer UInt64 := do
  let ring ← get
  if ring.buffer.size = 0 then undefinedBehaviour else pure ((index + 1) % ring.buffer.size)

/-- One round of a loop that writes. -/
def writeByte (byte : UInt8) : Program Exn RingBuffer Unit := do
  let ring ← get
  store ring.head byte
  let head ← advance ring.head
  modify fun ring => { ring with head, size := ring.size + 1 }

/-- One round of a loop that reads. -/
def readByte : Program Exn RingBuffer UInt8 := do
  let ring ← get
  let byte ← load ring.tail
  let tail ← advance ring.tail
  modify fun ring => { ring with tail, size := ring.size - 1 }
  pure byte

/-- A loop of so many rounds that read. -/
def readBytes : Nat → Program Exn RingBuffer (List UInt8)
  | 0 => pure []
  | remaining + 1 => do
    let byte ← readByte
    let rest ← readBytes remaining
    pure (byte :: rest)

/-- The loop of `peek`, from this index on. -/
def lookBytes (index : UInt64) : Nat → Program Exn RingBuffer (List UInt8)
  | 0 => pure []
  | remaining + 1 => do
    let byte ← load index
    let next ← advance index
    let rest ← lookBytes next remaining
    pure (byte :: rest)

/-- `RingBuffer::push(const std::vector<unsigned char>&)`. -/
def pushVector (bytes : ByteVector) : Program Exn RingBuffer Unit := do
  let ring ← get
  if ring.isFull then raise (.outOfRange "trying to write on full buffer, try to increase size")
  else if bytes.size > ring.buffer.size - ring.size then
    raise (.outOfRange "trying to read more than available in buffer")
  else bytes.bytes.forM writeByte

/-- `RingBuffer::push(const std::string&)`. -/
def pushString (line : ByteVector) : Program Exn RingBuffer Unit := do
  let ring ← get
  if ring.isFull then raise (.outOfRange "trying to write on full buffer") else pushVector line

/-- `RingBuffer::push(const unsigned char&)`. -/
def push (byte : UInt8) : Program Exn RingBuffer Unit := do
  let ring ← get
  if ring.isFull then raise (.outOfRange "trying to write on full buffer") else writeByte byte

/-- `RingBuffer::pushInto`. The pointer is the memory readable behind it. -/
def pushInto (data : List UInt8) (size : UInt64) : Program Exn RingBuffer Unit := do
  let ring ← get
  if ring.capacityAvailable < size then raise (.outOfRange "trying to put more than available in buffer")
  else if data.length < size.toNat then undefinedBehaviour
  else (data.take size.toNat).forM writeByte

/-- `RingBuffer::pop()`. -/
def pop : Program Exn RingBuffer UInt8 := do
  let ring ← get
  if ring.isEmpty then raise (.outOfRange "trying to read on empty buffer") else readByte

/-- `RingBuffer::pop(const size_t&)`. -/
def popMany (size : UInt64) : Program Exn RingBuffer (List UInt8) := do
  let ring ← get
  if size > ring.size then
    raise (.outOfRange "trying to read more than available in buffer or empty buffer")
  else readBytes size.toNat

/-- The loop of `popInto`, with the cells written so far and those behind them. The
length is a reference, and is read anew in each round. -/
def fillFrom (size : List UInt8 → UInt64) (written : List UInt8) : List UInt8 → Program Exn RingBuffer (List UInt8)
  | [] => if written.length < (size written).toNat then undefinedBehaviour else pure written
  | cell :: cells =>
    if written.length < (size (written ++ cell :: cells)).toNat then do
      let byte ← readByte
      fillFrom size (written ++ [byte]) cells
    else pure (written ++ cell :: cells)

/-- `RingBuffer::popInto`. The pointer is the memory writable behind it, given
as its bytes before and handed back as its bytes after. The length may lie in
that memory, so it is a function of what the memory holds. -/
def popInto (data : List UInt8) (size : List UInt8 → UInt64) : Program Exn RingBuffer (List UInt8) := do
  let ring ← get
  if size data > ring.size then
    raise (.outOfRange "trying to read more than available in buffer or empty buffer")
  else fillFrom size [] data

/-- `RingBuffer::peek() const`. -/
def peek : Program Exn RingBuffer UInt8 := do
  let ring ← get
  if ring.isEmpty then raise (.outOfRange "trying to read on empty buffer") else load ring.tail

/-- `RingBuffer::peek(const size_t&) const`. -/
def peekMany (size : UInt64) : Program Exn RingBuffer (List UInt8) := do
  let ring ← get
  if ring.isEmpty then raise (.outOfRange "trying to read on empty buffer")
  else if size > ring.size then raise (.outOfRange "trying to read more than available in buffer")
  else lookBytes ring.tail size.toNat

/-- `RingBuffer::clear`. -/
def clear : Program Exn RingBuffer Unit :=
  modify fun ring => { ring with tail := 0, head := 0, size := 0 }

/-- A call of the buffer's user, whose pointers reach as far as they say. The
length given to `popInto` lies outside the memory it is to fill. -/
inductive Operation where
  | push (byte : UInt8)
  | pushString (line : ByteVector)
  | pushVector (bytes : ByteVector)
  | pushInto (data : List UInt8) (size : UInt64) (readable : size.toNat ≤ data.length)
  | pop
  | popMany (size : UInt64)
  | popInto (data : List UInt8) (size : UInt64) (writable : size.toNat ≤ data.length)
  | peek
  | peekMany (size : UInt64)
  | clear

/-- Performs one call; the result is the bytes it hands to the caller. -/
def perform : Operation → Program Exn RingBuffer (List UInt8)
  | .push byte => do
    push byte
    pure []
  | .pushString line => do
    pushString line
    pure []
  | .pushVector bytes => do
    pushVector bytes
    pure []
  | .pushInto data size _ => do
    pushInto data size
    pure []
  | .pop => do
    let byte ← pop
    pure [byte]
  | .popMany size => popMany size
  | .popInto data size _ => popInto data fun _ => size
  | .peek => do
    let byte ← peek
    pure [byte]
  | .peekMany size => peekMany size
  | .clear => do
    clear
    pure []

/-- A call made by somebody who catches what it throws. -/
def attempted (operation : Operation) : Program Exn RingBuffer (Option (List UInt8)) := fun ring =>
  match (perform operation).run ring with
  | .ok answer after => .ok (some answer) after
  | .error (.thrown _) after => .ok none after
  | .error halt after => .error halt after

/-- Calls made one after the other. -/
def performAll : List Operation → Program Exn RingBuffer (List (Option (List UInt8)))
  | [] => pure []
  | operation :: rest => do
    let answer ← attempted operation
    let answers ← performAll rest
    pure (answer :: answers)

/-! ### What the calls mean -/

/-- What a call is to a queue: the bytes the caller gets and the queue that is
left, or nothing where the call throws. -/
def Operation.meaning {capacity : Nat} (queue : BoundedQueue UInt8 capacity) :
    Operation → Option (List UInt8 × BoundedQueue UInt8 capacity)
  | .push byte => (queue.append [byte]).map ([], ·)
  | .pushString line => if queue.items.length = capacity then none else (queue.append line.bytes).map ([], ·)
  | .pushVector bytes => if queue.items.length = capacity then none else (queue.append bytes.bytes).map ([], ·)
  | .pushInto data size _ => (queue.append (data.take size.toNat)).map ([], ·)
  | .pop => queue.remove 1
  | .popMany size => queue.remove size.toNat
  | .popInto data size _ =>
    (queue.remove size.toNat).map fun (bytes, rest) => (bytes ++ data.drop size.toNat, rest)
  | .peek => (queue.front 1).map (·, queue)
  | .peekMany size => if queue.items = [] then none else (queue.front size.toNat).map (·, queue)
  | .clear => some ([], .empty)

/-- The answers of a queue to calls made one after the other, and the queue that
is left. A call that throws has no answer and leaves the queue as it is. -/
def Operation.run {capacity : Nat} (queue : BoundedQueue UInt8 capacity) :
    List Operation → List (Option (List UInt8)) × BoundedQueue UInt8 capacity
  | [] => ([], queue)
  | operation :: rest =>
    match operation.meaning queue with
    | none => ((run queue rest).map (none :: ·) id)
    | some (answer, next) => ((run next rest).map (some answer :: ·) id)

/-- The bytes from the tail on, as many as `_size` says, going round at the end. -/
def contents (ring : RingBuffer) : List UInt8 :=
  BoundedQueue.window ring.buffer.bytes ring.tail.toNat ring.size.toNat

/-- The counters of the buffer fit together, and it holds this queue. -/
structure Represents {capacity : Nat} (queue : BoundedQueue UInt8 capacity) (ring : RingBuffer) : Prop where
  cells : ring.buffer.bytes.length = capacity
  size : ring.size.toNat = queue.items.length
  tail : ring.tail.toNat < capacity ∨ ring.tail = 0
  head : ring.head.toNat = (ring.tail.toNat + queue.items.length) % capacity
  holds : ring.contents = queue.items

/-! ### One byte -/

section Calls
variable {capacity : Nat} {queue : BoundedQueue UInt8 capacity} {ring : RingBuffer}

theorem Represents.bounded (represents : Represents queue ring) : capacity ≤ maxSize :=
  represents.cells ▸ ring.buffer.fits

theorem Represents.isFull (represents : Represents queue ring) :
    ring.isFull = true ↔ queue.items.length = capacity := by
  rw [RingBuffer.isFull, decide_eq_true_iff, ← UInt64.toNat_inj, ByteVector.size_toNat, represents.cells,
    represents.size]
  exact eq_comm

theorem Represents.isEmpty (represents : Represents queue ring) : ring.isEmpty = true ↔ queue.items = [] := by
  rw [RingBuffer.isEmpty, decide_eq_true_iff, ← UInt64.toNat_inj, represents.size, UInt64.toNat_zero,
    List.length_eq_zero_iff]

theorem Represents.available (represents : Represents queue ring) :
    ring.capacityAvailable.toNat = capacity - queue.items.length := by
  have within : ring.size ≤ ring.buffer.size := by
    rw [UInt64.le_iff_toNat_le, ByteVector.size_toNat, represents.cells, represents.size]
    exact queue.fits
  rw [capacityAvailable, UInt64.toNat_sub_of_le _ _ within, ByteVector.size_toNat, represents.cells,
    represents.size]

/-- The next index, where there is one. -/
theorem advance_returns {index : UInt64} (inside : index.toNat < ring.buffer.bytes.length) :
    ∃ next, (advance index).run ring = .ok next ring ∧
      next.toNat = (index.toNat + 1) % ring.buffer.bytes.length := by
  have bounded : ring.buffer.bytes.length ≤ maxSize := ring.buffer.fits
  have nonempty : ring.buffer.size ≠ 0 := by
    intro none
    have length := ring.buffer.size_toNat
    rw [none, UInt64.toNat_zero] at length
    omega
  refine ⟨(index + 1) % ring.buffer.size, ?_, ?_⟩
  · rw [advance, EStateM.run_bind, EStateM.run_get]
    simp only [if_neg nonempty]
    rfl
  · have small : index.toNat + 1 < 2 ^ 64 := by
      unfold maxSize at bounded
      omega
    rw [UInt64.toNat_mod, UInt64.toNat_add, ByteVector.size_toNat, UInt64.toNat_one, Nat.mod_eq_of_lt small]

theorem load_returns {index : UInt64} (inside : index.toNat < ring.buffer.bytes.length) :
    (load index).run ring = .ok ring.buffer.bytes[index.toNat] ring := by
  rw [load, EStateM.run_bind, EStateM.run_get]
  simp only [List.getElem?_eq_getElem inside]
  rfl

theorem Represents.tail_inside (represents : Represents queue ring) (nonempty : 0 < capacity) :
    ring.tail.toNat < ring.buffer.bytes.length := by
  rw [represents.cells]
  rcases represents.tail with inside | start
  · exact inside
  · rw [start]
    exact nonempty

/-- Writing a byte puts it at the back. -/
theorem writeByte_returns {grown : BoundedQueue UInt8 capacity} {byte : UInt8} (represents : Represents queue ring)
    (items : grown.items = queue.items ++ [byte]) :
    ∃ after, (writeByte byte).run ring = .ok () after ∧ Represents grown after := by
  have size : grown.items.length = queue.items.length + 1 := by rw [items, List.length_append]; rfl
  have room : queue.items.length < capacity := by
    have fits := grown.fits
    omega
  have bounded := represents.bounded
  have headInside : ring.head.toNat < ring.buffer.bytes.length := by
    rw [represents.head, represents.cells]
    exact Nat.mod_lt _ (by omega)
  let stored : RingBuffer := { ring with
    buffer := ⟨ring.buffer.bytes.set ring.head.toNat byte, by rw [List.length_set]; exact ring.buffer.fits⟩ }
  have storing : (store ring.head byte).run ring = .ok () stored := by
    rw [store, EStateM.run_bind, EStateM.run_get]
    simp only [if_pos headInside]
    rfl
  have headStored : ring.head.toNat < stored.buffer.bytes.length := by rwa [List.length_set]
  obtain ⟨next, advancing, place⟩ := advance_returns headStored
  refine ⟨{ stored with head := next, size := ring.size + 1 }, ?_, ?_⟩
  · rw [writeByte, EStateM.run_bind, EStateM.run_get]
    simp only [EStateM.run_bind, storing, advancing]
    rfl
  have counted : (ring.size + 1).toNat = queue.items.length + 1 := by
    unfold maxSize at bounded
    rw [UInt64.toNat_add, represents.size, UInt64.toNat_one, Nat.mod_eq_of_lt (by omega)]
  constructor
  · exact (List.length_set ..).trans represents.cells
  · exact counted.trans size.symm
  · exact represents.tail
  · rw [List.length_set, represents.cells, represents.head, Nat.mod_add_mod] at place
    rw [size]
    exact place
  · have cell : ring.head.toNat = (ring.tail.toNat + queue.items.length) % ring.buffer.bytes.length := by
      rw [represents.cells]
      exact represents.head
    have before := represents.holds
    rw [contents, represents.size] at before
    change BoundedQueue.window (ring.buffer.bytes.set ring.head.toNat byte) _ _ = _
    rw [counted, cell, BoundedQueue.window_push (by rw [represents.cells]; exact room), before, items]

/-- The tail points at the front of the queue; behind it lies the rest. -/
theorem Represents.first {byte : UInt8} {rest : List UInt8} (represents : Represents queue ring)
    (items : queue.items = byte :: rest) : (load ring.tail).run ring = .ok byte ring ∧
      BoundedQueue.window ring.buffer.bytes ((ring.tail.toNat + 1) % capacity) rest.length = rest := by
  have size : queue.items.length = rest.length + 1 := by rw [items, List.length_cons]
  have fits := queue.fits
  have inside := represents.tail_inside (by omega)
  have seen := represents.holds
  rw [contents, represents.size, size, BoundedQueue.window_pop inside (by rw [represents.cells]; omega), items,
    List.cons.injEq, represents.cells] at seen
  exact ⟨(load_returns inside).trans (congrArg (EStateM.Result.ok · ring) seen.1), seen.2⟩

/-- Reading a byte takes it from the front. -/
theorem readByte_returns {shrunk : BoundedQueue UInt8 capacity} {byte : UInt8} (represents : Represents queue ring)
    (items : queue.items = byte :: shrunk.items) :
    ∃ after, readByte.run ring = .ok byte after ∧ Represents shrunk after := by
  have size : queue.items.length = shrunk.items.length + 1 := by rw [items, List.length_cons]
  have fits := queue.fits
  have inside := represents.tail_inside (by omega)
  obtain ⟨loaded, behind⟩ := represents.first items
  obtain ⟨next, advancing, place⟩ := advance_returns inside
  refine ⟨{ ring with tail := next, size := ring.size - 1 }, ?_, ?_⟩
  · rw [readByte, EStateM.run_bind, EStateM.run_get]
    simp only [EStateM.run_bind, loaded, advancing]
    rfl
  have counted : (ring.size - 1).toNat = shrunk.items.length := by
    have some : (1 : UInt64) ≤ ring.size := by
      rw [UInt64.le_iff_toNat_le, represents.size, UInt64.toNat_one]
      omega
    rw [UInt64.toNat_sub_of_le _ _ some, represents.size, UInt64.toNat_one]
    omega
  rw [represents.cells] at place
  constructor
  · exact represents.cells
  · exact counted
  · exact Or.inl (place ▸ Nat.mod_lt _ (by omega))
  · have head := represents.head
    rw [head, size]
    change _ = (next.toNat + _) % _
    rw [place, Nat.mod_add_mod]
    congr 1
    omega
  · change BoundedQueue.window ring.buffer.bytes next.toNat (ring.size - 1).toNat = _
    rw [counted, place]
    exact behind

/-! ### Loops -/

theorem writeBytes_returns {grown : BoundedQueue UInt8 capacity} {bytes : List UInt8}
    (represents : Represents queue ring) (items : grown.items = queue.items ++ bytes) :
    ∃ after, (bytes.forM writeByte).run ring = .ok () after ∧ Represents grown after := by
  induction bytes generalizing queue ring with
  | nil =>
    rw [List.append_nil] at items
    have same : grown = queue := BoundedQueue.ext items
    exact ⟨ring, rfl, same ▸ represents⟩
  | cons byte bytes ih =>
    have fits := grown.fits
    rw [items, List.length_append, List.length_cons] at fits
    obtain ⟨middle, wrote, reached⟩ :=
      @writeByte_returns _ _ _ ⟨queue.items ++ [byte], by rw [List.length_append]; simp; omega⟩ _ represents rfl
    obtain ⟨after, ran, ends⟩ := ih reached (by rw [items, List.append_cons])
    exact ⟨after, bind_returns.mpr ⟨(), middle, wrote, ran⟩, ends⟩

theorem readBytes_returns {shrunk : BoundedQueue UInt8 capacity} {bytes : List UInt8}
    (represents : Represents queue ring) (items : queue.items = bytes ++ shrunk.items) :
    ∃ after, (readBytes bytes.length).run ring = .ok bytes after ∧ Represents shrunk after := by
  induction bytes generalizing queue ring with
  | nil =>
    have same : queue = shrunk := BoundedQueue.ext items
    exact ⟨ring, rfl, same ▸ represents⟩
  | cons byte bytes ih =>
    have fits := queue.fits
    rw [items, List.length_append, List.length_cons] at fits
    obtain ⟨middle, read, reached⟩ :=
      @readByte_returns _ _ _ ⟨bytes ++ shrunk.items, by rw [List.length_append]; omega⟩ _ represents items
    obtain ⟨after, ran, ends⟩ := ih reached rfl
    refine ⟨after, ?_, ends⟩
    exact bind_returns.mpr ⟨byte, middle, read, bind_returns.mpr ⟨bytes, after, ran, rfl⟩⟩

/-- The loop of `peek` reads a window and changes nothing. -/
theorem lookBytes_returns {index : UInt64} (inside : index.toNat < ring.buffer.bytes.length)
    (room : count ≤ ring.buffer.bytes.length) : (lookBytes index count).run ring =
      .ok (BoundedQueue.window ring.buffer.bytes index.toNat count) ring := by
  induction count generalizing index with
  | zero =>
    rw [BoundedQueue.window_zero]
    rfl
  | succ count ih =>
    obtain ⟨next, advancing, place⟩ := advance_returns inside
    have still : next.toNat < ring.buffer.bytes.length := place ▸ Nat.mod_lt _ (by omega)
    rw [BoundedQueue.window_pop inside (by omega), ← place, lookBytes]
    simp only [EStateM.run_bind, load_returns inside, advancing, ih still (by omega)]
    rfl

/-! ### Whole calls -/

/-- The program answers as the queue does, and throws exactly where the queue
has no answer; then it leaves everything as it is. -/
def Answers (result : Option (List UInt8 × BoundedQueue UInt8 capacity)) (program : Program Exn RingBuffer (List UInt8))
    (ring : RingBuffer) : Prop :=
  match result with
  | some (answer, rest) => ∃ after, program.run ring = .ok answer after ∧ Represents rest after
  | none => ∃ what, program.run ring = .error (.thrown (.outOfRange what)) ring

/-- A call that writes these bytes if they fit, and else throws. -/
theorem answers_of_writes {bytes : List UInt8} {program : Program Exn RingBuffer Unit}
    (represents : Represents queue ring)
    (throws : capacity < queue.items.length + bytes.length →
      ∃ what, program.run ring = .error (.thrown (.outOfRange what)) ring)
    (writes : queue.items.length + bytes.length ≤ capacity →
      program.run ring = (bytes.forM writeByte).run ring) :
    Answers ((queue.append bytes).map ([], ·)) (do program; pure []) ring := by
  by_cases fits : queue.items.length + bytes.length ≤ capacity
  · rw [BoundedQueue.append_fits fits]
    obtain ⟨after, ran, ends⟩ := @writeBytes_returns _ _ _
      ⟨queue.items ++ bytes, by rwa [List.length_append]⟩ bytes represents rfl
    exact ⟨after, bind_returns.mpr ⟨(), after, (writes fits).trans ran, rfl⟩, ends⟩
  · rw [BoundedQueue.append_overfull (by omega)]
    obtain ⟨what, stopped⟩ := throws (by omega)
    exact ⟨what, bind_stops.mpr (Or.inl stopped)⟩

/-- A call that reads so many bytes and does something with them, if there are
as many, and else throws. -/
theorem answers_of_reads {count : Nat} {program : Program Exn RingBuffer (List UInt8)}
    {use : List UInt8 → List UInt8} (represents : Represents queue ring)
    (throws : queue.items.length < count → ∃ what, program.run ring = .error (.thrown (.outOfRange what)) ring)
    (reads : ∀ bytes after, (readBytes count).run ring = .ok bytes after →
      count ≤ queue.items.length → program.run ring = .ok (use bytes) after) :
    Answers ((queue.remove count).map fun (bytes, rest) => (use bytes, rest)) program ring := by
  unfold BoundedQueue.remove
  by_cases enough : count ≤ queue.items.length
  · rw [BoundedQueue.front_enough enough]
    obtain ⟨after, ran, ends⟩ := @readBytes_returns _ _ _ (queue.drop count) (queue.items.take count)
      represents (List.take_append_drop ..).symm
    rw [List.length_take, Nat.min_eq_left enough] at ran
    exact ⟨after, reads _ after ran enough, ends⟩
  · rw [BoundedQueue.front_short (by omega)]
    exact throws (by omega)

/-- A test for a full buffer, and what stands behind it. -/
theorem Represents.refuses_full {what : String} {next : Program Exn RingBuffer Unit}
    (represents : Represents queue ring) :
    (queue.items.length = capacity → ∃ said, (if ring.isFull then raise (.outOfRange what) else next).run ring =
      .error (.thrown (.outOfRange said)) ring) ∧
    (queue.items.length ≠ capacity →
      (if ring.isFull then raise (.outOfRange what) else next).run ring = next.run ring) := by
  constructor
  · intro full
    exact ⟨what, by simp only [if_pos (represents.isFull.mpr full)]; rfl⟩
  · intro space
    simp only [if_neg (represents.isFull.not.mpr space)]

theorem push_writes (represents : Represents queue ring) (byte : UInt8) :
    (queue.items.length = capacity → ∃ what, (push byte).run ring = .error (.thrown (.outOfRange what)) ring) ∧
      (queue.items.length ≠ capacity → (push byte).run ring = (writeByte byte).run ring) := by
  rw [push, EStateM.run_bind, EStateM.run_get]
  exact represents.refuses_full

theorem push_answers (represents : Represents queue ring) (byte : UInt8) :
    Answers ((Operation.push byte).meaning queue) (perform (.push byte)) ring := by
  have fits := queue.fits
  obtain ⟨throws, writes⟩ := push_writes represents byte
  apply answers_of_writes represents
  · intro overfull
    exact throws (by simp at overfull; omega)
  · intro room
    rw [writes (by simp at room; omega)]
    exact (congrArg (EStateM.run · ring) (bind_pure (writeByte byte))).symm

theorem pushVector_writes (represents : Represents queue ring) (bytes : ByteVector) :
    (capacity < queue.items.length + bytes.bytes.length →
      ∃ what, (pushVector bytes).run ring = .error (.thrown (.outOfRange what)) ring) ∧
    (queue.items.length ≠ capacity → queue.items.length + bytes.bytes.length ≤ capacity →
      (pushVector bytes).run ring = (bytes.bytes.forM writeByte).run ring) := by
  have available := represents.available
  have limit : bytes.size > ring.buffer.size - ring.size ↔
      capacity - queue.items.length < bytes.bytes.length := by
    rw [gt_iff_lt, UInt64.lt_iff_toNat_lt, ByteVector.size_toNat, ← available]
    rfl
  have fits := queue.fits
  rw [pushVector, EStateM.run_bind, EStateM.run_get]
  constructor
  · intro overfull
    by_cases full : ring.isFull = true
    · exact ⟨_, by simp only [if_pos full]; rfl⟩
    · exact ⟨_, by simp only [if_neg full, if_pos (limit.mpr (by omega))]; rfl⟩
  · intro space fits
    have spare : ¬ ring.isFull = true := fun full => space (represents.isFull.mp full)
    simp only [if_neg spare, if_neg (limit.not.mpr (by omega))]

theorem full_throws {program : Program Exn RingBuffer Unit} (stopped : program.run ring = .error halt after) :
    (do program; pure [] : Program Exn RingBuffer (List UInt8)).run ring = .error halt after :=
  bind_stops.mpr (Or.inl stopped)

theorem pushVector_answers (represents : Represents queue ring) (bytes : ByteVector) :
    Answers ((Operation.pushVector bytes).meaning queue) (perform (.pushVector bytes)) ring := by
  obtain ⟨throws, writes⟩ := pushVector_writes represents bytes
  simp only [Operation.meaning]
  by_cases full : queue.items.length = capacity
  · rw [if_pos full]
    refine ⟨"trying to write on full buffer, try to increase size", full_throws ?_⟩
    rw [pushVector, EStateM.run_bind, EStateM.run_get]
    simp [represents.isFull.mpr full]
  · rw [if_neg full]
    exact answers_of_writes represents throws (writes full)

/-- The string is handed on to the other overload, unless the buffer is full. -/
theorem pushString_writes (represents : Represents queue ring) (line : ByteVector) :
    (queue.items.length = capacity → ∃ what, (pushString line).run ring = .error (.thrown (.outOfRange what)) ring) ∧
      (queue.items.length ≠ capacity → (pushString line).run ring = (pushVector line).run ring) := by
  rw [pushString, EStateM.run_bind, EStateM.run_get]
  exact represents.refuses_full

theorem pushString_answers (represents : Represents queue ring) (line : ByteVector) :
    Answers ((Operation.pushString line).meaning queue) (perform (.pushString line)) ring := by
  obtain ⟨refuses, passes⟩ := pushString_writes represents line
  obtain ⟨throws, writes⟩ := pushVector_writes represents line
  simp only [Operation.meaning]
  by_cases full : queue.items.length = capacity
  · rw [if_pos full]
    obtain ⟨what, threw⟩ := refuses full
    exact ⟨what, full_throws threw⟩
  · rw [if_neg full]
    apply answers_of_writes represents
    · rw [passes full]
      exact throws
    · rw [passes full]
      exact writes full

theorem pushInto_writes (represents : Represents queue ring) {data : List UInt8} {size : UInt64}
    (readable : size.toNat ≤ data.length) :
    (capacity < queue.items.length + size.toNat →
      ∃ what, (pushInto data size).run ring = .error (.thrown (.outOfRange what)) ring) ∧
    (queue.items.length + size.toNat ≤ capacity →
      (pushInto data size).run ring = ((data.take size.toNat).forM writeByte).run ring) := by
  have fits := queue.fits
  have limit : ring.capacityAvailable < size ↔ capacity - queue.items.length < size.toNat := by
    rw [UInt64.lt_iff_toNat_lt, represents.available]
  rw [pushInto, EStateM.run_bind, EStateM.run_get]
  constructor
  · intro overfull
    exact ⟨_, by simp only [if_pos (limit.mpr (by omega))]; rfl⟩
  · intro room
    simp only [if_neg (limit.not.mpr (by omega)), if_neg (show ¬ data.length < size.toNat by omega)]

theorem pushInto_answers (represents : Represents queue ring) (data : List UInt8) (size : UInt64)
    (readable : size.toNat ≤ data.length) :
    Answers ((Operation.pushInto data size readable).meaning queue) (perform (.pushInto data size readable)) ring := by
  obtain ⟨throws, writes⟩ := pushInto_writes represents readable
  apply answers_of_writes represents
  all_goals rw [List.length_take, Nat.min_eq_left readable]
  · exact throws
  · exact writes

theorem Represents.asks (represents : Represents queue ring) (size : UInt64) :
    size > ring.size ↔ queue.items.length < size.toNat := by
  rw [gt_iff_lt, UInt64.lt_iff_toNat_lt, represents.size]

theorem pop_reads (represents : Represents queue ring) :
    (queue.items = [] → ∃ what, pop.run ring = .error (.thrown (.outOfRange what)) ring) ∧
      (queue.items ≠ [] → pop.run ring = readByte.run ring) := by
  rw [pop, EStateM.run_bind, EStateM.run_get]
  constructor
  · intro empty
    exact ⟨_, by simp only [if_pos (represents.isEmpty.mpr empty)]; rfl⟩
  · intro filled
    simp only [if_neg (represents.isEmpty.not.mpr filled)]

theorem pop_answers (represents : Represents queue ring) :
    Answers (Operation.pop.meaning queue) (perform .pop) ring := by
  obtain ⟨throws, returns⟩ := pop_reads represents
  have read : Answers ((queue.remove 1).map fun (bytes, rest) => (id bytes, rest)) (perform .pop) ring := by
    apply answers_of_reads represents
    · intro short
      obtain ⟨what, threw⟩ := throws (List.length_eq_zero_iff.mp (by omega))
      exact ⟨what, bind_stops.mpr (Or.inl threw)⟩
    · intro bytes after ran enough
      obtain ⟨byte, _, once, rest⟩ := bind_returns.mp ran
      obtain ⟨_, _, nothing, ends⟩ := bind_returns.mp rest
      cases nothing
      cases ends
      refine bind_returns.mpr ⟨byte, after, ?_, rfl⟩
      rw [returns (List.ne_nil_of_length_pos enough)]
      exact once
  simpa only [Operation.meaning, id, Prod.mk.eta, Option.map_id'] using read

theorem popMany_reads (represents : Represents queue ring) (size : UInt64) :
    (queue.items.length < size.toNat →
      ∃ what, (popMany size).run ring = .error (.thrown (.outOfRange what)) ring) ∧
    (size.toNat ≤ queue.items.length → (popMany size).run ring = (readBytes size.toNat).run ring) := by
  rw [popMany, EStateM.run_bind, EStateM.run_get]
  constructor
  · intro short
    exact ⟨_, by simp only [if_pos ((represents.asks size).mpr short)]; rfl⟩
  · intro enough
    simp only [if_neg ((represents.asks size).not.mpr (by omega))]

theorem popMany_answers (represents : Represents queue ring) (size : UInt64) :
    Answers ((Operation.popMany size).meaning queue) (perform (.popMany size)) ring := by
  obtain ⟨throws, returns⟩ := popMany_reads represents size
  have read : Answers ((queue.remove size.toNat).map fun (bytes, rest) => (id bytes, rest))
      (perform (.popMany size)) ring :=
    answers_of_reads represents throws fun bytes after ran enough => (returns enough).trans ran
  simpa only [Operation.meaning, id, Prod.mk.eta, Option.map_id'] using read

/-- With a length that stays what it is, the loop is the one that reads. -/
theorem fillFrom_reads {size : UInt64} {written cells bytes : List UInt8} (count : Nat)
    (asked : size.toNat = written.length + count) (writable : count ≤ cells.length)
    (ran : (readBytes count).run ring = .ok bytes after) :
    (fillFrom (fun _ => size) written cells).run ring = .ok (written ++ (bytes ++ cells.drop count)) after := by
  induction count generalizing written cells bytes ring with
  | zero =>
    cases ran
    have done : ¬ written.length < size.toNat := by omega
    cases cells with
    | nil => simp [fillFrom, done]
    | cons cell cells => simp [fillFrom, done]
  | succ count ih =>
    obtain ⟨cell, cells, rfl⟩ := List.exists_cons_of_length_pos (Nat.zero_lt_of_lt writable)
    obtain ⟨byte, middle, read, rest⟩ := bind_returns.mp ran
    obtain ⟨later, final, reads, ends⟩ := bind_returns.mp rest
    cases ends
    have goes : written.length < size.toNat := by omega
    have filled := @ih _ (written ++ [byte]) cells later (by rw [List.length_append, List.length_singleton]; omega)
      (Nat.le_of_succ_le_succ writable) reads
    rw [fillFrom, if_pos goes, EStateM.run_bind, read]
    simpa using filled

theorem popInto_reads (represents : Represents queue ring) {data : List UInt8} {size : UInt64}
    (writable : size.toNat ≤ data.length) :
    (queue.items.length < size.toNat →
      ∃ what, (popInto data fun _ => size).run ring = .error (.thrown (.outOfRange what)) ring) ∧
    ∀ bytes after, size.toNat ≤ queue.items.length → (readBytes size.toNat).run ring = .ok bytes after →
      (popInto data fun _ => size).run ring = .ok (bytes ++ data.drop size.toNat) after := by
  rw [popInto, EStateM.run_bind, EStateM.run_get]
  constructor
  · intro short
    exact ⟨_, by simp only [if_pos ((represents.asks size).mpr short)]; rfl⟩
  · intro bytes after enough ran
    simp only [if_neg ((represents.asks size).not.mpr (by omega))]
    exact fillFrom_reads size.toNat (Nat.zero_add _).symm writable ran

/-- A length in the memory that is filled is overwritten: of two bytes asked for by
the first cell, only one is handed over, because it is a 0. -/
example : (outcome (popInto [2, 9] fun memory => (memory.headD 0).toUInt64)
    ⟨⟨[0, 5], by decide⟩, 0, 0, 2⟩).map Prod.fst = some [0, 9] := by decide

theorem popInto_answers (represents : Represents queue ring) (data : List UInt8) (size : UInt64)
    (writable : size.toNat ≤ data.length) :
    Answers ((Operation.popInto data size writable).meaning queue) (perform (.popInto data size writable)) ring := by
  obtain ⟨throws, returns⟩ := popInto_reads represents writable
  exact @answers_of_reads _ _ _ _ _ (· ++ data.drop size.toNat) represents throws
    fun bytes after ran enough => returns bytes after enough ran

theorem peek_answers (represents : Represents queue ring) :
    Answers (Operation.peek.meaning queue) (perform .peek) ring := by
  simp only [Operation.meaning]
  cases items : queue.items with
  | nil =>
    have empty : ring.isEmpty = true := represents.isEmpty.mpr items
    rw [BoundedQueue.front_short (by rw [items]; exact Nat.zero_lt_one)]
    refine ⟨"trying to read on empty buffer", bind_stops.mpr (Or.inl ?_)⟩
    rw [peek, EStateM.run_bind, EStateM.run_get]
    simp only [if_pos empty]
    rfl
  | cons byte rest =>
    have filled : ¬ ring.isEmpty = true := fun empty => by
      rw [represents.isEmpty.mp empty] at items
      cases items
    rw [BoundedQueue.front_enough (by rw [items]; exact Nat.succ_pos _), items]
    refine ⟨ring, bind_returns.mpr ⟨byte, ring, ?_, rfl⟩, represents⟩
    rw [peek, EStateM.run_bind, EStateM.run_get]
    simp only [if_neg filled]
    exact (represents.first items).1

theorem peekMany_looks (represents : Represents queue ring) (size : UInt64) :
    (queue.items = [] ∨ queue.items.length < size.toNat →
      ∃ what, (peekMany size).run ring = .error (.thrown (.outOfRange what)) ring) ∧
    (queue.items ≠ [] → size.toNat ≤ queue.items.length →
      (peekMany size).run ring = .ok (queue.items.take size.toNat) ring) := by
  have fits := queue.fits
  rw [peekMany, EStateM.run_bind, EStateM.run_get]
  constructor
  · intro refused
    by_cases empty : queue.items = []
    · exact ⟨_, by simp only [if_pos (represents.isEmpty.mpr empty)]; rfl⟩
    · have short := refused.resolve_left empty
      exact ⟨_, by
        simp only [if_neg (represents.isEmpty.not.mpr empty), if_pos ((represents.asks size).mpr short)]; rfl⟩
  · intro filled enough
    have some : 0 < queue.items.length := List.length_pos_of_ne_nil filled
    have shown := represents.holds
    rw [contents, represents.size, BoundedQueue.window] at shown
    simp only [if_neg (represents.isEmpty.not.mpr filled), if_neg ((represents.asks size).not.mpr (by omega))]
    rw [lookBytes_returns (represents.tail_inside (by omega)) (by rw [represents.cells]; omega), BoundedQueue.window,
      ← shown, List.take_take, Nat.min_eq_left enough]

theorem peekMany_answers (represents : Represents queue ring) (size : UInt64) :
    Answers ((Operation.peekMany size).meaning queue) (perform (.peekMany size)) ring := by
  obtain ⟨throws, looks⟩ := peekMany_looks represents size
  simp only [Operation.meaning]
  by_cases empty : queue.items = []
  · rw [if_pos empty]
    exact throws (Or.inl empty)
  rw [if_neg empty]
  by_cases enough : size.toNat ≤ queue.items.length
  · rw [BoundedQueue.front_enough enough]
    exact ⟨ring, looks empty enough, represents⟩
  · rw [BoundedQueue.front_short (by omega)]
    exact throws (Or.inr (by omega))

theorem clear_answers (represents : Represents queue ring) :
    Answers (Operation.clear.meaning queue) (perform .clear) ring := by
  refine ⟨{ ring with tail := 0, head := 0, size := 0 }, rfl, ?_⟩
  constructor
  · exact represents.cells
  · rfl
  · exact Or.inr rfl
  · exact (Nat.zero_mod _).symm
  · exact BoundedQueue.window_zero ..

/-- Every call answers as the queue does. -/
theorem perform_answers (represents : Represents queue ring) (operation : Operation) :
    Answers (operation.meaning queue) (perform operation) ring := by
  cases operation with
  | push byte => exact push_answers represents byte
  | pushString line => exact pushString_answers represents line
  | pushVector bytes => exact pushVector_answers represents bytes
  | pushInto data size readable => exact pushInto_answers represents data size readable
  | pop => exact pop_answers represents
  | popMany size => exact popMany_answers represents size
  | popInto data size writable => exact popInto_answers represents data size writable
  | peek => exact peek_answers represents
  | peekMany size => exact peekMany_answers represents size
  | clear => exact clear_answers represents

theorem represents_new (size_buffer : UInt64) (fits : size_buffer.toNat ≤ maxSize) :
    Represents (.empty : BoundedQueue UInt8 size_buffer.toNat) (new size_buffer fits) where
  cells := List.length_replicate
  size := rfl
  tail := Or.inr rfl
  head := (Nat.zero_mod _).symm
  holds := BoundedQueue.window_zero ..

theorem attempted_value {operation : Operation} (returned : (perform operation).run ring = .ok answer after) :
    (attempted operation).run ring = .ok (some answer) after := by
  unfold attempted
  simp only [EStateM.run] at returned ⊢
  rw [returned]

theorem attempted_error {operation : Operation} (threw : (perform operation).run ring = .error (.thrown error) after) :
    (attempted operation).run ring = .ok none after := by
  unfold attempted
  simp only [EStateM.run] at threw ⊢
  rw [threw]

/-- Calls in a row answer as the queue does. -/
theorem performAll_answers (represents : Represents queue ring) (operations : List Operation) :
    ∃ after, (performAll operations).run ring = .ok (Operation.run queue operations).1 after ∧
      Represents (Operation.run queue operations).2 after := by
  induction operations generalizing queue ring with
  | nil => exact ⟨ring, rfl, represents⟩
  | cons operation operations ih =>
    have answers := perform_answers represents operation
    rw [Operation.run]
    cases meant : operation.meaning queue with
    | none =>
      rw [meant] at answers
      obtain ⟨what, threw⟩ := answers
      obtain ⟨after, ran, ends⟩ := ih represents
      refine ⟨after, bind_returns.mpr ⟨none, ring, attempted_error threw, ?_⟩, ends⟩
      exact bind_returns.mpr ⟨_, after, ran, rfl⟩
    | some result =>
      obtain ⟨answer, next⟩ := result
      rw [meant] at answers
      obtain ⟨middle, returned, reached⟩ := answers
      obtain ⟨after, ran, ends⟩ := ih reached
      refine ⟨after, bind_returns.mpr ⟨some answer, middle, attempted_value returned, ?_⟩, ends⟩
      exact bind_returns.mpr ⟨_, after, ran, rfl⟩

end Calls

/-- Whatever is called on a new buffer, and in whatever order: the buffer answers
as a queue of its capacity, throws where the queue has no answer, never leaves
the bounds of its vector, and stands for the queue that is left. -/
theorem refines_bounded_queue (size_buffer : UInt64) (fits : size_buffer.toNat ≤ maxSize)
    (operations : List Operation) :
    ∃ ring, (performAll operations).run (new size_buffer fits) =
        .ok (Operation.run (.empty : BoundedQueue UInt8 size_buffer.toNat) operations).1 ring ∧
      Represents (Operation.run (.empty : BoundedQueue UInt8 size_buffer.toNat) operations).2 ring :=
  performAll_answers (represents_new size_buffer fits) operations

/-- Eight cells, and bytes that go round the end. -/
theorem refines_bounded_queue_wrapped :
    ∃ ring, (performAll [.pushVector ⟨[1, 2, 3, 4, 5], by decide⟩, .pop, .pop, .pushVector ⟨[6, 7, 8], by decide⟩,
        .popMany 7, .popMany 6]).run (new 8 (by decide)) =
      .ok [some [], some [1], some [2], some [], none, some [3, 4, 5, 6, 7, 8]] ring ∧
      Represents (⟨[], by decide⟩ : BoundedQueue UInt8 8) ring :=
  refines_bounded_queue 8 (by decide) _

end RingBuffer
end Libftpp
