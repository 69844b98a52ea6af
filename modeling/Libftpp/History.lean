import Libftpp.Host

/-! What a log says about the messages of a process. Received messages are
numbered in the order in which they were queued; a pass is one of them handed to
one action. A queue is emptied as a whole, so the number of a message is its
place in the queue plus the messages dropped before. Whether every message is
passed to an action at most once is a property of the log alone, and it is kept
by everything except a dispatch loop that starts while messages of a loop left
by an exception are still queued. -/
namespace Libftpp
open Program

/-- One message handed to one action: the message's number, the place of the
action among those registered for the type, and, next to the client ID the
action was given, the ID assigned to the connection the message came from. -/
structure Pass where
  serial : Nat
  slot : Nat
  action : Nat
  clientId : Option Int
  origin : Option Int
  message : Message

/-- Which message went to which of its actions. -/
def Pass.key (pass : Pass) : Nat × Nat := (pass.serial, pass.slot)

/-- The account of a log: how many messages have been dropped from the queue,
the descriptor and the connection's ID of each one still in it, the ID last
assigned on each descriptor, all passes, and whether the last dispatch loop was
left by an exception. -/
structure Ledger where
  dropped : Nat
  waiting : List (Int × Option Int)
  owner : Int → Option Int
  passes : List Pass
  interrupted : Bool

namespace Ledger

def start : Ledger := ⟨0, [], fun _ => none, [], false⟩

/-- Enters one event. -/
def note (ledger : Ledger) : Event → Ledger
  | .assigned fd clientId =>
    { ledger with owner := fun other => if other = fd then some clientId else ledger.owner other }
  | .queued fd messages =>
    { ledger with waiting := ledger.waiting ++ messages.map fun _ => (fd, ledger.owner fd) }
  | .invoked index slot action clientId message =>
    { ledger with passes := ledger.passes ++
        [⟨ledger.dropped + index, slot, action, clientId, ledger.waiting[index]?.bind Prod.snd, message⟩] }
  | .threw => { ledger with interrupted := true }
  | .discarded =>
    { ledger with
      dropped := ledger.dropped + ledger.waiting.length
      waiting := []
      interrupted := false }
  | _ => ledger

end Ledger

/-- The account of a whole log. -/
def ledger (log : List Event) : Ledger := log.foldl Ledger.note .start

@[simp] theorem ledger_snoc (log : List Event) (event : Event) :
    ledger (log ++ [event]) = (ledger log).note event := by
  simp [ledger]

/-- The event neither queues, passes nor drops messages. -/
def Event.Aside (event : Event) : Prop :=
  ∀ ledger : Ledger, ∃ owner, ledger.note event = { ledger with owner }

/-- The event concerns neither messages nor IDs; an exception may be noted. -/
def Event.Beside (event : Event) : Prop :=
  ∀ ledger : Ledger, ∃ interrupted, ledger.note event = { ledger with interrupted } ∧
    (interrupted = false → ledger.interrupted = false)

@[simp] theorem Event.beside_opened (fd : Int) : (Event.opened fd).Beside := fun _ => ⟨_, rfl, id⟩

@[simp] theorem Event.beside_accepted (fd : Int) : (Event.accepted fd).Beside := fun _ => ⟨_, rfl, id⟩

@[simp] theorem Event.beside_closed (fd : Int) : (Event.closed fd).Beside := fun _ => ⟨_, rfl, id⟩

@[simp] theorem Event.beside_started : Event.started.Beside := fun _ => ⟨_, rfl, id⟩

@[simp] theorem Event.beside_removed (fd clientId : Int) : (Event.removed fd clientId).Beside :=
  fun _ => ⟨_, rfl, id⟩

@[simp] theorem Event.beside_printed (text : String) : (Event.printed text).Beside := fun _ => ⟨_, rfl, id⟩

theorem ledger_beside {events : List Event} (beside : ∀ event ∈ events, event.Beside) (log : List Event) :
    ∃ interrupted, ledger (log ++ events) = { ledger log with interrupted } ∧
      (interrupted = false → (ledger log).interrupted = false) := by
  induction events generalizing log with
  | nil => exact ⟨_, by rw [List.append_nil], id⟩
  | cons event events ih =>
    obtain ⟨_, entered, kept⟩ := beside event (List.mem_cons_self ..) (ledger log)
    obtain ⟨interrupted, rest, calm⟩ :=
      ih (fun other member => beside other (List.mem_cons_of_mem _ member)) (log ++ [event])
    rw [ledger_snoc, entered] at rest calm
    exact ⟨interrupted, by rw [List.append_cons, rest], fun still => kept (calm still)⟩

/-! ### Conditions on every event of a log -/

/-- Every event of the log meets the condition after what came before it. -/
def Throughout (condition : List Event → Event → Prop) (log : List Event) : Prop :=
  ∀ before event after, log = before ++ event :: after → condition before event

theorem Throughout.before (holds : Throughout condition log) (part : first <+: log) :
    Throughout condition first := by
  obtain ⟨more, rfl⟩ := part
  intro before event after shape
  apply holds before event (after ++ more)
  rw [shape, List.append_assoc, List.cons_append]

theorem Throughout.last (holds : Throughout condition (log ++ [event])) : condition log event :=
  holds log event [] rfl

theorem Throughout.snoc (holds : Throughout condition log) (last : condition log event) :
    Throughout condition (log ++ [event]) := by
  intro before other after shape
  rcases List.eq_nil_or_concat after with rfl | ⟨middle, final, rfl⟩
  · obtain ⟨rfl, same⟩ := List.append_inj' shape rfl
    cases same
    exact last
  · rw [List.concat_eq_append, ← List.cons_append, ← List.append_assoc] at shape
    obtain ⟨rfl, _⟩ := List.append_inj' shape rfl
    exact holds before other middle rfl

theorem Throughout.mono (holds : Throughout condition log)
    (weaker : ∀ before event, condition before event → condition' before event) : Throughout condition' log :=
  fun before event after shape => weaker before event (holds before event after shape)

/-- Events that meet the condition wherever they stand. -/
theorem Throughout.append (holds : Throughout condition log)
    (harmless : ∀ event ∈ events, ∀ before, condition before event) : Throughout condition (log ++ events) := by
  induction events generalizing log with
  | nil => rwa [List.append_nil]
  | cons event events ih =>
    rw [List.append_cons]
    apply ih (holds.snoc (harmless event (List.mem_cons_self ..) log))
    exact fun other member => harmless other (List.mem_cons_of_mem _ member)

theorem throughout_nil : Throughout condition [] := by
  intro before event after shape
  simp at shape

theorem throughout_snoc_iff : Throughout condition (log ++ [event]) ↔ Throughout condition log ∧ condition log event :=
  ⟨fun holds => ⟨holds.before (List.prefix_append _ _), holds.last⟩, fun ⟨holds, last⟩ => holds.snoc last⟩

/-- Whether such a condition holds after a log known to meet it, event by event. -/
def throughoutFrom (condition : List Event → Event → Prop) (before : List Event) : List Event → Prop
  | [] => True
  | event :: after => condition before event ∧ throughoutFrom condition (before ++ [event]) after

instance throughoutFrom_decidable [∀ before event, Decidable (condition before event)] :
    (before after : List Event) → Decidable (throughoutFrom condition before after)
  | _, [] => isTrue trivial
  | before, event :: after =>
    have := (@throughoutFrom_decidable condition) (before ++ [event]) after
    inferInstanceAs (Decidable (_ ∧ _))

theorem throughout_append_iff :
    Throughout condition (first ++ rest) ↔ Throughout condition first ∧ throughoutFrom condition first rest := by
  induction rest generalizing first with
  | nil => simp [throughoutFrom]
  | cons event rest ih =>
    rw [List.append_cons, ih, throughout_snoc_iff, throughoutFrom, and_assoc]

instance [∀ before event, Decidable (condition before event)] (log : List Event) :
    Decidable (Throughout condition log) :=
  decidable_of_iff (throughoutFrom condition [] log) (by
    rw [← List.nil_append log, throughout_append_iff, List.nil_append]
    exact (and_iff_right throughout_nil).symm)

/-! ### At most once -/

/-- No dispatch loop starts while messages of a loop left by an exception are
still queued. -/
def NoDispatchAfterThrow (log : List Event) : Prop :=
  Throughout (fun before event => event = .dispatching → (ledger before).interrupted = false) log

instance (log : List Event) : Decidable (NoDispatchAfterThrow log) :=
  inferInstanceAs (Decidable (Throughout (fun _ _ => _ → _ = false) log))

namespace Ledger

/-- Every message went to each of its actions at most once. -/
def AtMostOnce (ledger : Ledger) : Prop := (ledger.passes.map Pass.key).Nodup

instance (ledger : Ledger) : Decidable ledger.AtMostOnce := inferInstanceAs (Decidable (List.Nodup _))

/-- Between two dispatch loops: the account agrees with a queue of this length,
and what has been passed is no longer queued, unless an exception left it there. -/
structure Tidy (ledger : Ledger) (queue : Nat) : Prop where
  counted : ledger.waiting.length = queue
  once : ledger.AtMostOnce
  known : ∀ pass ∈ ledger.passes, pass.serial < ledger.dropped + queue
  gone : ledger.interrupted = false → ∀ pass ∈ ledger.passes, pass.serial < ledger.dropped

/-- Inside a dispatch loop that has come to this message and this action. -/
structure Midway (ledger : Ledger) (queue index slot : Nat) : Prop where
  counted : ledger.waiting.length = queue
  once : ledger.AtMostOnce
  calm : ledger.interrupted = false
  behind : ∀ pass ∈ ledger.passes, pass.serial < ledger.dropped + index ∨
    pass.serial = ledger.dropped + index ∧ pass.slot < slot

theorem Tidy.start : Tidy start 0 where
  counted := rfl
  once := List.nodup_nil
  known _ member := by cases member
  gone _ _ member := by cases member

theorem Tidy.aside (tidy : Tidy books queue) (aside : event.Aside) : Tidy (books.note event) queue := by
  obtain ⟨owner, noted⟩ := aside books
  rw [noted]
  exact ⟨tidy.counted, tidy.once, tidy.known, tidy.gone⟩

theorem Tidy.beside {interrupted : Bool} (tidy : Tidy books queue)
    (calm : interrupted = false → books.interrupted = false) :
    Tidy { books with interrupted } queue :=
  ⟨tidy.counted, tidy.once, tidy.known, fun still => tidy.gone (calm still)⟩

theorem Tidy.queued (tidy : Tidy books queue) (fd : Int) (messages : List Message) :
    Tidy (books.note (.queued fd messages)) (queue + messages.length) := by
  constructor
  · simp [note, tidy.counted]
  · exact tidy.once
  · intro pass member
    have bound := tidy.known pass member
    change pass.serial < books.dropped + _
    omega
  · exact tidy.gone

/-- Emptying the queue settles everything that was passed out of it. -/
theorem tidy_of_discarded {books : Ledger} (counted : books.waiting.length = queue) (once : books.AtMostOnce)
    (known : ∀ pass ∈ books.passes, pass.serial < books.dropped + queue) :
    Tidy (books.note .discarded) 0 := by
  subst counted
  exact ⟨rfl, once, known, fun _ => known⟩

theorem Tidy.discarded (tidy : Tidy books queue) : Tidy (books.note .discarded) 0 :=
  tidy_of_discarded tidy.counted tidy.once tidy.known

theorem Tidy.dispatching (tidy : Tidy books queue) (calm : books.interrupted = false) :
    Midway (books.note .dispatching) queue 0 0 where
  counted := tidy.counted
  once := tidy.once
  calm := calm
  behind pass member := Or.inl (tidy.gone calm pass member)

theorem Midway.owned (midway : Midway books queue index slot) (owner : Int → Option Int) :
    Midway { books with owner } queue index slot :=
  ⟨midway.counted, midway.once, midway.calm, midway.behind⟩

theorem Midway.invoked (midway : Midway books queue index slot) (action : Nat) (clientId : Option Int)
    (message : Message) :
    Midway (books.note (.invoked index slot action clientId message)) queue index (slot + 1) := by
  constructor
  · exact midway.counted
  · -- Everything passed so far lies before this message and this action.
    unfold AtMostOnce note
    rw [List.map_append]
    refine List.Nodup.append midway.once (List.nodup_singleton _) ?_
    intro key old new
    obtain ⟨pass, member, rfl⟩ := List.mem_map.mp old
    simp only [Pass.key, List.map_cons, List.map_nil, List.mem_singleton, Prod.mk.injEq] at new
    have position := midway.behind pass member
    omega
  · exact midway.calm
  · intro pass member
    change _ < books.dropped + index ∨ _ = books.dropped + index ∧ _
    rcases List.mem_append.mp member with old | new
    · have position := midway.behind pass old
      omega
    · rw [List.mem_singleton.mp new]
      exact Or.inr ⟨rfl, Nat.lt_succ_self _⟩

theorem Midway.next (midway : Midway books queue index slot) : Midway books queue (index + 1) 0 where
  counted := midway.counted
  once := midway.once
  calm := midway.calm
  behind pass member := by
    have position := midway.behind pass member
    omega

theorem Midway.threw (midway : Midway books queue index 0) (inside : index ≤ queue) :
    Tidy (books.note .threw) queue := by
  constructor
  · exact midway.counted
  · exact midway.once
  · intro pass member
    have position := midway.behind pass member
    change pass.serial < books.dropped + queue
    omega
  · intro calm
    cases calm

/-- The loop has been through the whole queue. -/
theorem Midway.discarded (midway : Midway books queue queue 0) : Tidy (books.note .discarded) 0 := by
  apply tidy_of_discarded midway.counted midway.once
  intro pass member
  have position := midway.behind pass member
  omega

end Ledger

/-! ### Steps that concern no message -/

/-- A step that leaves this part of the object as it is, and notes at most one
event that neither queues, passes nor drops messages. -/
def Hushed (part : σ → τ) (before after : World σ) : Prop :=
  part after.object = part before.object ∧
    (after.log = before.log ∨ ∃ event : Event, event.Aside ∧ after.log = before.log ++ [event])

theorem Hushed.logged (hushed : Hushed part before after) : before.log <+: after.log := by
  rcases hushed.2 with same | ⟨event, _, noted⟩
  · rw [same]
  · rw [noted]
    exact List.prefix_append _ _

/-- Such steps change the account in the IDs of the open connections at most. -/
theorem Hushed.books (steps : Relation.ReflTransGen (Hushed part) before after) :
    part after.object = part before.object ∧ before.log <+: after.log ∧
      ∃ owner, ledger after.log = { ledger before.log with owner } := by
  induction steps with
  | refl => exact ⟨rfl, List.prefix_rfl, (ledger before.log).owner, rfl⟩
  | tail _ hushed ih =>
    obtain ⟨kept, logged, owner, books⟩ := ih
    refine ⟨hushed.1.trans kept, logged.trans hushed.logged, ?_⟩
    rcases hushed.2 with same | ⟨event, aside, noted⟩
    · exact ⟨owner, by rw [same, books]⟩
    · obtain ⟨owner', entered⟩ := aside (ledger _)
      exact ⟨owner', by rw [noted, ledger_snoc, entered, books]⟩

theorem Hushed.coarser {part : σ → τ} (finer : Hushed id before after) : Hushed part before after :=
  ⟨congrArg part finer.1, finer.2⟩

theorem Hushed.emit {part : σ → τ} (aside : event.Aside) :
    StepsThrough (Hushed part) (World.emit event : Call σ Unit) :=
  .modify fun _ => ⟨rfl, Or.inr ⟨event, aside, rfl⟩⟩

theorem Hushed.setErrno {part : σ → τ} (errno : Int) :
    StepsThrough (Hushed part) (World.setErrno errno : Call σ Unit) :=
  .modify fun _ => ⟨rfl, Or.inl rfl⟩

theorem Hushed.alter {part : σ → τ} {change : σ → σ} (same : ∀ object, part (change object) = part object) :
    StepsThrough (Hushed part) (World.alter change : Call σ Unit) :=
  .modify fun world => ⟨same world.object, Or.inl rfl⟩

/-! ### Which events concern no message -/

theorem Event.aside_of_note {event : Event} (noted : ∀ ledger : Ledger, ledger.note event = ledger) :
    event.Aside :=
  fun ledger => ⟨ledger.owner, noted ledger⟩

end Libftpp
