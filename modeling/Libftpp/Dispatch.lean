import Libftpp.History

/-! What a dispatch loop does to its queue and to the account of messages,
whoever runs it. The loop hands messages over in the order of the queue. While
it runs it drops none, and a message it has handed over may have been read. -/
namespace Libftpp

/-- Two messages that differ at most in what has been read of them. -/
def Message.SameContent (first second : Message) : Prop :=
  second.type = first.type ∧ second.buffer.buffer = first.buffer.buffer ∧ second.fd = first.fd

theorem Message.sameContent_refl (message : Message) : SameContent message message := ⟨rfl, rfl, rfl⟩

theorem Message.SameContent.trans (first : SameContent one two) (second : SameContent two three) :
    SameContent one three :=
  ⟨second.1.trans first.1, second.2.1.trans first.2.1, second.2.2.trans first.2.2⟩

theorem Message.SameContent.readBy (same : SameContent first second) (reads : Nat) :
    SameContent first (second.readBy reads) := same

/-- The message is this packet, whatever has been read of it: its buffer holds the
payload and nothing else. -/
def Says (packet : Packet) (message : Message) : Prop :=
  message.type = packet.type ∧ message.buffer.buffer.bytes = packet.payload

theorem Says.trans {packet : Packet} (told : Says packet message) (same : message.SameContent now) : Says packet now :=
  ⟨same.1.trans told.1, (congrArg ByteVector.bytes same.2.1).trans told.2⟩

theorem Message.Untouched.told {message : Message} (untouched : message.Untouched) : Says message.packet message :=
  ⟨rfl, untouched.unread.symm⟩

/-- Changing one entry of a list that goes along with another. -/
theorem forall₂_set {relation : α → β → Prop} (all : List.Forall₂ relation first second)
    (shape : first[index]? = some value) (holds : relation value changed) :
    List.Forall₂ relation first (second.set index changed) := by
  induction all generalizing index with
  | nil => exact .nil
  | cons head tail ih =>
    cases index with
    | zero =>
      cases shape
      exact .cons holds tail
    | succ index => exact .cons head (ih shape)

variable {σ : Type} {queue : σ → List Message}

/-- This message of the loop's queue went to this action. -/
def PassedTo (first : World σ) (books : Ledger) (index slot action : Nat) (message : Message) : Prop :=
  ∃ pass ∈ books.passes, pass.serial = (ledger first.log).dropped + index ∧ pass.slot = slot ∧
    pass.action = action ∧ message.SameContent pass.message

/-- What a loop that began in the first state leaves alone up to the second: it
drops nothing from the queue, and it passes only what was in it. -/
structure Retained (queue : σ → List Message) (first world : World σ) : Prop where
  logged : first.log <+: world.log
  alike : List.Forall₂ Message.SameContent (queue first.object) (queue world.object)
  waiting : (ledger world.log).waiting = (ledger first.log).waiting
  dropped : (ledger world.log).dropped = (ledger first.log).dropped
  grown : ∀ pass ∈ (ledger first.log).passes, pass ∈ (ledger world.log).passes
  known : ∀ pass ∈ (ledger world.log).passes, pass ∈ (ledger first.log).passes ∨
    pass.serial < (ledger first.log).dropped + (queue first.object).length

theorem Retained.refl (first : World σ) : Retained queue first first where
  logged := List.prefix_rfl
  alike := List.forall₂_same.mpr fun message _ => message.sameContent_refl
  waiting := rfl
  dropped := rfl
  grown _ := id
  known _ := Or.inl

/-- What happens beside the loop, and what an exception notes. -/
theorem Retained.noted (retained : Retained queue first world) (same : queue after.object = queue world.object)
    (logged : world.log <+: after.log)
    (books : ∃ owner interrupted, ledger after.log = { ledger world.log with owner, interrupted }) :
    Retained queue first after := by
  obtain ⟨owner, interrupted, books⟩ := books
  constructor
  · exact retained.logged.trans logged
  · rw [same]
    exact retained.alike
  · rw [books]
    exact retained.waiting
  · rw [books]
    exact retained.dropped
  · rw [books]
    exact retained.grown
  · rw [books]
    exact retained.known

/-- A message of the queue is still there, read or not. -/
theorem Retained.current {index : Nat} {message : Message} (retained : Retained queue first world)
    (shape : (queue first.object)[index]? = some message) :
    ∃ now, (queue world.object)[index]? = some now ∧ message.SameContent now := by
  obtain ⟨inside, rfl⟩ := List.getElem?_eq_some_iff.mp shape
  have bound : index < (queue world.object).length := by
    rw [← retained.alike.length_eq]
    exact inside
  exact ⟨(queue world.object)[index], List.getElem?_eq_getElem bound, retained.alike.get inside bound⟩

/-- The loop hands a message to an action. -/
theorem Retained.invoked {index : Nat} {message now : Message} {after : World σ} (retained : Retained queue first world)
    (shape : (queue first.object)[index]? = some message) (same : message.SameContent now)
    (read : queue after.object = (queue world.object).set index (now.readBy reads))
    (logged : after.log = world.log ++ [.invoked index slot action clientId now]) :
    Retained queue first after := by
  constructor
  · rw [logged]
    exact retained.logged.trans (List.prefix_append _ _)
  · rw [read]
    exact forall₂_set retained.alike shape (same.readBy reads)
  · rw [logged, ledger_snoc]
    exact retained.waiting
  · rw [logged, ledger_snoc]
    exact retained.dropped
  · intro pass member
    rw [logged, ledger_snoc]
    exact List.mem_append_left _ (retained.grown pass member)
  · intro pass member
    rw [logged, ledger_snoc] at member
    rcases List.mem_append.mp member with old | new
    · exact retained.known pass old
    · rw [List.mem_singleton.mp new, ← retained.dropped]
      exact Or.inr (Nat.add_lt_add_left (List.getElem?_eq_some_iff.mp shape).1 _)

/-- That message has then been passed, and so has everything passed before. -/
theorem Retained.passedTo {message now : Message} {after : World σ} (retained : Retained queue first world)
    (same : message.SameContent now)
    (logged : after.log = world.log ++ [.invoked index slot action clientId now]) :
    PassedTo first (ledger after.log) index slot action message := by
  rw [logged, ledger_snoc]
  refine ⟨_, List.mem_append_right _ (List.mem_singleton.mpr rfl), ?_, rfl, rfl, same⟩
  exact congrArg (· + _) retained.dropped

theorem PassedTo.grown {first : World σ} (passed : PassedTo first books index slot action message)
    (grown : ∀ pass ∈ books.passes, pass ∈ later.passes) : PassedTo first later index slot action message := by
  obtain ⟨pass, member, facts⟩ := passed
  exact ⟨pass, grown pass member, facts⟩

/-- What the normal end of a loop leaves of the queue and the account. -/
structure Emptied (queue : σ → List Message) (first world : World σ) : Prop where
  logged : first.log <+: world.log
  waiting : (ledger world.log).waiting = []
  grown : ∀ pass ∈ (ledger first.log).passes, pass ∈ (ledger world.log).passes
  known : ∀ pass ∈ (ledger world.log).passes, pass ∈ (ledger first.log).passes ∨
    pass.serial < (ledger first.log).dropped + (queue first.object).length
  dropped : (ledger world.log).dropped = (ledger first.log).dropped + (ledger first.log).waiting.length

theorem Retained.emptied {after : World σ} (retained : Retained queue first world)
    (logged : after.log = world.log ++ [.discarded]) : Emptied queue first after := by
  constructor
  · rw [logged]
    exact retained.logged.trans (List.prefix_append _ _)
  · rw [logged, ledger_snoc]
    rfl
  · rw [logged, ledger_snoc]
    exact retained.grown
  · rw [logged, ledger_snoc]
    exact retained.known
  · rw [logged, ledger_snoc, ← retained.waiting, ← retained.dropped]
    rfl

end Libftpp
