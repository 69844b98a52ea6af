import Mathlib.Data.List.NodupEquivFin
import Libftpp.ServerRuns

/-! What becomes of the messages of a client that disconnects. Reception queues
them in order whatever happens to the client afterwards. The dispatch loop then
looks up the client of each message when it comes to it, and passes over the
messages of a client that has been removed by then. -/
namespace Libftpp
open Program World StreamDecoding

/-- The actions the message with this number went to, each with the client ID it
was given. -/
def Ledger.handed (ledger : Ledger) (serial : Nat) : List (Nat × Option Int) :=
  (ledger.passes.filter (·.serial = serial)).map fun pass => (pass.action, pass.clientId)

section Reading
variable [Platform]

/-- What one `recv` hands over starts with the frames of these messages. -/
def Carries (piece : List UInt8) (messages : List Message) : Prop :=
  ∃ frames tail, Message.Frames messages frames ∧ piece = frames.flatten ++ tail

/-- Whole frames at the front are read first. -/
theorem extractBytes_starts {packets read : List Packet} {tail left : List UInt8}
    (ran : Inbox.extractBytes fuel (Packet.codec.encodeAll packets ++ tail) = .ok (read, left)) :
    packets <+: read := by
  induction packets generalizing fuel read with
  | nil => exact List.nil_prefix
  | cons packet packets ih =>
    rw [Codec.encodeAll_cons, List.append_assoc] at ran
    have stands := Inbox.front_next (Packet.codec.next_encode packet (Packet.codec.encodeAll packets ++ tail))
    obtain ⟨fewer, rfl, ⟨waits, _⟩ | ⟨first, rest, more, step, later, rfl⟩⟩ := Inbox.extractBytes_ok ran
    · rw [stands] at waits
      cases waits
    · rw [stands] at step
      cases step
      exact List.cons_prefix_cons.mpr ⟨rfl, ih later⟩

/-- Every message whose frame lies whole in a piece is read, in order. -/
theorem readPieces_of_carries {pieces : List (List UInt8)} {parts : List (List Message)}
    (carried : List.Forall₂ Carries pieces parts) (ran : readPieces pieces = .ok packets) :
    (parts.flatten.map Message.packet).Sublist packets := by
  induction carried generalizing packets with
  | nil => exact List.nil_sublist _
  | @cons piece part pieces parts carries _ ih =>
    obtain ⟨frames, tail, sent, rfl⟩ := carries
    rw [Message.frames_eq sent] at ran
    unfold readPieces at ran
    split at ran
    · cases ran
    · rename_i front left first
      split at ran
      · cases ran
      · rename_i later rest
        cases ran
        rw [List.flatten_cons, List.map_append]
        exact (extractBytes_starts first).sublist.append (ih rest)

end Reading

namespace Server

/-! ### Numbers -/

/-- On the way from one state to the other, only messages have been passed that
were not dropped before it and are queued or dropped after it. -/
structure Advances (before after : World Server) : Prop where
  counted : (ledger after.log).waiting.length = after.object.msgs.length
  dropped : (ledger before.log).dropped ≤ (ledger after.log).dropped
  bound : (ledger before.log).dropped + before.object.msgs.length ≤
    (ledger after.log).dropped + after.object.msgs.length
  passes : ∃ more, (ledger after.log).passes = (ledger before.log).passes ++ more ∧
    ∀ pass ∈ more, (ledger before.log).dropped ≤ pass.serial ∧
      pass.serial < (ledger after.log).dropped + after.object.msgs.length

theorem Advances.trans {before middle after : World Server} (early : Advances before middle)
    (late : Advances middle after) : Advances before after where
  counted := late.counted
  dropped := early.dropped.trans late.dropped
  bound := early.bound.trans late.bound
  passes := by
    obtain ⟨first, firstPasses, firstRange⟩ := early.passes
    obtain ⟨second, secondPasses, secondRange⟩ := late.passes
    refine ⟨first ++ second, by rw [secondPasses, firstPasses, List.append_assoc], ?_⟩
    intro pass member
    rcases List.mem_append.mp member with old | new
    · have range := firstRange pass old
      exact ⟨range.1, range.2.trans_le late.bound⟩
    · have range := secondRange pass new
      exact ⟨early.dropped.trans range.1, range.2⟩

theorem advances_of_beside {before after : World Server}
    (counted : (ledger before.log).waiting.length = before.object.msgs.length)
    (msgs : after.object.msgs = before.object.msgs)
    (books : ∃ owner interrupted, ledger after.log = { ledger before.log with owner, interrupted }) :
    Advances before after := by
  obtain ⟨owner, interrupted, books⟩ := books
  constructor
  · rw [books, msgs]
    exact counted
  · rw [books]
  · rw [books, msgs]
  · exact ⟨[], by rw [books, List.append_nil], by simp⟩

/-- Emptying the queue passes nothing. -/
theorem advances_of_discarded {before after : World Server}
    (counted : (ledger before.log).waiting.length = before.object.msgs.length)
    (msgs : after.object.msgs = []) (books : ledger after.log = (ledger before.log).note .discarded) :
    Advances before after := by
  constructor
  · rw [books, msgs]
    rfl
  · rw [books]
    exact Nat.le_add_right _ _
  · rw [books, msgs, ← counted]
    exact Nat.le_refl _
  · exact ⟨[], by rw [books, List.append_nil]; rfl, by simp⟩

section Numbers
variable [Platform]

theorem Intake.advances {before after : World Server} (intake : Intake before events fresh after)
    (counted : (ledger before.log).waiting.length = before.object.msgs.length) : Advances before after where
  counted := by rw [intake.waiting, intake.queue, List.length_append, counted]
  dropped := intake.dropped.ge
  bound := by
    rw [intake.dropped, intake.queue, List.length_append]
    omega
  passes := ⟨[], by rw [intake.passes, List.append_nil], by simp⟩

theorem Turn.advances (turn : Turn before after) (drained : before.object.Drained)
    (counted : (ledger before.log).waiting.length = before.object.msgs.length) : Advances before after := by
  cases turn with
  | step step =>
    obtain ⟨events, fresh, intake⟩ := step.intake drained
    exact intake.advances counted
  | defined tasks => exact advances_of_beside counted rfl ⟨_, _, rfl⟩
  | invoked found from_ known reads =>
    have inside := (List.getElem?_eq_some_iff.mp found).1
    constructor
    · rw [ledger_snoc, List.length_set]
      exact counted
    · rw [ledger_snoc]
      exact Nat.le_refl _
    · rw [ledger_snoc, List.length_set]
      exact Nat.le_refl _
    · refine ⟨[_], by rw [ledger_snoc]; rfl, ?_⟩
      intro pass member
      rw [List.mem_singleton.mp member, ledger_snoc, List.length_set]
      exact ⟨Nat.le_add_right _ _, Nat.add_lt_add_left inside _⟩
  | discarded => exact advances_of_discarded counted rfl (ledger_snoc ..)
  | stopped => exact advances_of_discarded counted rfl (ledger_closing ..)

omit [Platform] in
theorem StartExit.advances (exit : StartExit before after)
    (counted : (ledger before.log).waiting.length = before.object.msgs.length) : Advances before after := by
  cases exit with
  | unopened errno => exact advances_of_beside counted rfl ⟨_, _, rfl⟩
  | gaveUp fd maxFd errno active plain =>
    obtain ⟨interrupted, books, _⟩ := ledger_beside (beside_opening fd plain) before.log
    have opened := (@advances_of_beside before ⟨{ before.object with socket := fd, maxFd, active }, errno, _⟩)
      counted rfl ⟨_, interrupted, books⟩
    exact opened.trans (advances_of_discarded opened.counted rfl (ledger_closing ..))
  | listening fd errno selectable plain =>
    obtain ⟨interrupted, books, _⟩ := ledger_beside (beside_listening fd plain) before.log
    exact advances_of_beside counted rfl ⟨_, interrupted, books⟩

/-- Any number of calls. -/
theorem Run.advances (run : Run (fun _ _ => True) first last) (drained : first.object.Drained)
    (counted : (ledger first.log).waiting.length = first.object.msgs.length) : Advances first last := by
  have kept := run.keeps (fun _ _ => True) (Advances first)
    (fun before after turn drained _ advances => advances.trans (turn.advances drained advances.counted))
    (fun before after script port exit _ _ advances => advances.trans (exit.advances advances.counted))
    drained (advances_of_beside counted rfl ⟨_, _, rfl⟩)
  exact kept.2 fun _ _ _ _ => trivial

end Numbers

/-- What was dropped before, or is not queued even after, has not been passed on
the way. -/
theorem Advances.handed {before after : World Server} (advances : Advances before after)
    (outside : serial < (ledger before.log).dropped ∨
      (ledger after.log).dropped + after.object.msgs.length ≤ serial) :
    (ledger after.log).handed serial = (ledger before.log).handed serial := by
  obtain ⟨more, passes, range⟩ := advances.passes
  have others : more.filter (·.serial = serial) = [] := by
    apply List.filter_eq_nil_iff.mpr
    intro pass member
    have within := range pass member
    simp only [decide_eq_true_eq]
    omega
  rw [Ledger.handed, passes, List.filter_append, others, List.append_nil]
  rfl

/-! ### The dispatch loop, seen from one message -/

/-- The loop has gone by without handing over the message with this index. -/
def Bypasses (dropped index : Nat) (before after : World Server) : Prop :=
  (ledger before.log).dropped = dropped →
    (ledger after.log).dropped = dropped ∧
      (ledger after.log).handed (dropped + index) = (ledger before.log).handed (dropped + index)

theorem bypasses_of_steps {before after : World Server}
    (steps : Relation.ReflTransGen (Bypasses dropped index) before after) : Bypasses dropped index before after := by
  induction steps with
  | refl => exact fun same => ⟨same, rfl⟩
  | tail _ step ih =>
    intro same
    obtain ⟨still, handed⟩ := ih same
    obtain ⟨last, again⟩ := step still
    exact ⟨last, again.trans handed⟩

theorem Replied.bypasses (replied : Replied before after) : Bypasses dropped index before after := by
  intro same
  rw [replied.books]
  exact ⟨same, rfl⟩

/-- The state in which the dispatch loop comes to the message with this index. -/
def ComesTo [Platform] (react : Nat → Reaction Reply) (selected : World Server) (index : Nat)
    (turn : World Server) : Prop :=
  (dispatchFrom react 0 index).run { selected with log := selected.log ++ [.dispatching] } = .ok () turn

section Loop
variable [Platform]

/-- Handing over another message. -/
theorem invoke_bypasses (other : index' ≠ index) (reaction : Reaction Reply) (action : Nat) (clientId : Int)
    (message : Message) :
    StepsThrough (Bypasses dropped index) (invoke reaction index' action clientId message) := by
  apply StepsThrough.bind
  · refine .modify fun world same => ?_
    have different : ¬ (ledger world.log).dropped + index' = dropped + index := by omega
    rw [ledger_snoc]
    refine ⟨same, ?_⟩
    simp [Ledger.handed, Ledger.note, List.filter_append, different]
  intro _
  apply StepsThrough.bind
  · exact .modify fun world same => ⟨same, rfl⟩
  intro _
  rintro before after (⟨value, ran⟩ | ⟨error, ran⟩)
  · have replied := replied_of_steps (act_replied reaction _ _ (.of_returns (noting_returns.mp ran)))
    exact .single replied.bypasses
  · obtain ⟨middle, threw, rfl⟩ := noting_throws.mp ran
    have replied := replied_of_steps (act_replied reaction _ _ (Or.inr ⟨error, threw⟩))
    refine .tail (.single replied.bypasses) fun same => ?_
    rw [ledger_snoc]
    exact ⟨same, rfl⟩

theorem dispatchMessage_bypasses (react : Nat → Reaction Reply) (other : index' ≠ index) :
    StepsThrough (Bypasses dropped index) (dispatchMessage react index') := by
  apply StepsThrough.bind .get
  intro world
  cases world.object.msgs[index']? with
  | none => exact .undefinedBehaviour
  | some message =>
    dsimp only
    cases world.object.taskOf message.type with
    | none => exact .pure ()
    | some action =>
      dsimp only
      cases message.fd with
      | none => exact .undefinedBehaviour
      | some fd =>
        dsimp only
        cases world.object.clientOf fd with
        | none => exact .pure ()
        | some clientId => exact invoke_bypasses other _ _ _ _

theorem dispatchFrom_bypasses (react : Nat → Reaction Reply) (start remaining : Nat)
    (outside : index < start ∨ start + remaining ≤ index) :
    StepsThrough (Bypasses dropped index) (dispatchFrom react start remaining) := by
  induction remaining generalizing start with
  | zero => exact .pure ()
  | succ remaining ih =>
    apply StepsThrough.bind (dispatchMessage_bypasses react (by omega))
    exact fun _ => ih (start + 1) (by omega)

/-- The loop up to a message, and from there on. -/
theorem dispatchFrom_add (react : Nat → Reaction Reply) (start first rest : Nat) :
    dispatchFrom react start (first + rest) = (do
      dispatchFrom react start first
      dispatchFrom react (start + first) rest : Call Server Unit) := by
  induction first generalizing start with
  | zero => simp [dispatchFrom]
  | succ first ih =>
    rw [Nat.succ_add, dispatchFrom, ih, dispatchFrom, bind_assoc, Nat.succ_add_eq_add_succ]

/-- The message the loop has come to goes to its action once if its client is
registered then, and to nobody otherwise. -/
theorem dispatchMessage_hands {turn next : World Server} {message : Message} (found : turn.object.msgs[index]? = some message)
    (handled : turn.object.taskOf message.type = some action) (from_ : message.fd = some fd)
    (left : Leaves (dispatchMessage react index) turn next) :
    (ledger next.log).dropped = (ledger turn.log).dropped ∧
      (ledger next.log).handed ((ledger turn.log).dropped + index) =
        (ledger turn.log).handed ((ledger turn.log).dropped + index) ++
          (turn.object.clientOf fd).toList.map fun clientId => (action, some clientId) := by
  replace left := left.past (EStateM.run_get ..)
  simp only [found, handled, from_] at left
  cases known : turn.object.clientOf fd with
  | none =>
    simp only [known] at left
    rcases left with ⟨_, ran⟩ | ⟨_, ran⟩ <;> cases ran
    simp
  | some clientId =>
    simp only [known] at left
    replace left := (left.past (run_emit ..)).past (run_alter ..)
    have books : ∃ interrupted, ledger next.log =
        { (ledger turn.log).note (.invoked index 0 action (some clientId) message) with interrupted } := by
      rcases left with ⟨_, ran⟩ | ⟨error, ran⟩
      · have replied := replied_of_steps (act_replied _ _ _ (.of_returns (noting_returns.mp ran)))
        exact ⟨_, by rw [replied.books, ledger_snoc]⟩
      · obtain ⟨middle, threw, rfl⟩ := noting_throws.mp ran
        have replied := replied_of_steps (act_replied _ _ _ (Or.inr ⟨error, threw⟩))
        exact ⟨true, by rw [ledger_snoc, replied.books, ledger_snoc]; rfl⟩
    obtain ⟨interrupted, books⟩ := books
    rw [books]
    refine ⟨rfl, ?_⟩
    simp [Ledger.handed, Ledger.note, List.filter_append]

/-- So it goes in a whole loop that comes to the message. -/
theorem dispatchFrom_hands {first turn last : World Server} {message : Message} (found : first.object.msgs[index]? = some message)
    (handled : first.object.taskOf message.type = some action) (from_ : message.fd = some fd)
    (comes : (dispatchFrom react 0 index).run first = .ok () turn)
    (left : Leaves (dispatchFrom react 0 first.object.msgs.length) first last) :
    (ledger last.log).handed ((ledger first.log).dropped + index) =
      (ledger first.log).handed ((ledger first.log).dropped + index) ++
        (turn.object.clientOf fd).toList.map fun clientId => (action, some clientId) := by
  have inside := (List.getElem?_eq_some_iff.mp found).1
  -- What the loop does before it comes to the message.
  obtain ⟨still, early⟩ := bypasses_of_steps
    (dispatchFrom_bypasses react 0 index (Or.inr (Nat.zero_add _).le) first turn (.of_returns comes)) rfl
  have underway := (dispatchFrom_meets react (by omega) (Underway.refl first)).1 () turn comes
  rw [Nat.zero_add] at underway
  obtain ⟨now, here, same⟩ := underway.current found
  have task : turn.object.taskOf now.type = some action := by
    rw [taskOf, underway.tasks, same.1]
    exact handled
  obtain ⟨rest, length⟩ : ∃ rest, first.object.msgs.length = index + (rest + 1) :=
    ⟨first.object.msgs.length - index - 1, by omega⟩
  rw [length, dispatchFrom_add] at left
  replace left := left.past comes
  rw [Nat.zero_add] at left
  rcases left.bind with left | ⟨_, next, ran, left⟩
  · have handed := (dispatchMessage_hands here task (same.2.2.trans from_) left).2
    rw [still] at handed
    rw [handed, early]
  · obtain ⟨kept, handed⟩ := dispatchMessage_hands here task (same.2.2.trans from_) (.of_returns ran)
    rw [still] at kept handed
    -- What it does afterwards.
    obtain ⟨_, late⟩ := bypasses_of_steps
      (dispatchFrom_bypasses react (index + 1) rest (Or.inl (Nat.lt_succ_self _)) next last left) kept
    rw [late, handed, early]

/-- The second half of `update`, however it is left. -/
theorem dispatch_hands {selected turn after : World Server} {message : Message}
    (found : selected.object.msgs[index]? = some message)
    (handled : selected.object.taskOf message.type = some action) (from_ : message.fd = some fd)
    (comes : ComesTo react selected index turn) (left : Leaves (dispatch react) selected after) :
    (ledger after.log).handed ((ledger selected.log).dropped + index) =
      (ledger selected.log).handed ((ledger selected.log).dropped + index) ++
        (turn.object.clientOf fd).toList.map fun clientId => (action, some clientId) := by
  replace left := (left.past (run_emit ..)).past (EStateM.run_get ..)
  have hands := fun last => (@dispatchFrom_hands _ _ _ _ _ { selected with log := selected.log ++ [.dispatching] }
    turn last message) found handled from_ comes
  rw [ledger_snoc] at hands
  rcases left.bind with left | ⟨_, last, ran, left⟩
  · exact hands after left
  · replace left := (left.past (run_emit ..))
    rcases left with ⟨_, ended⟩ | ⟨_, ended⟩ <;> cases ended
    rw [ledger_snoc]
    exact hands last (.of_returns ran)

theorem ComesTo.underway {selected turn : World Server} (comes : ComesTo react selected index turn)
    (inside : index ≤ selected.object.msgs.length) :
    Underway { selected with log := selected.log ++ [.dispatching] } index turn := by
  have meets := @dispatchFrom_meets _ _ _ { selected with log := selected.log ++ [.dispatching] } _ react
    ((Nat.zero_add _).le.trans inside) (.refl _)
  rw [Nat.zero_add] at meets
  exact meets.1 () turn comes

end Loop

/-! ### One update -/

/-- What an update does with a message it has received from this client, left in
the last of these states after its `select` loop ended in the middle one. The
message is queued. An interrupted `select` leaves it queued; otherwise it goes to
its action once if the client is still registered when the dispatch loop comes to
it, and to nobody if the client has been removed by then. An update that returns
has come to every message, and no later call passes any of them again. -/
structure Settled [Platform] (rounds : List Round) (last : SelectEnd) (react : Nat → Reaction Reply)
    (before middle after : World Server) (ended : Bool) (fd clientId : Int) (message : Message) (index : Nat) :
    Prop where
  queued : ∃ now, middle.object.msgs[index]? = some now ∧ now.packet = message.packet ∧ now.fd = some fd
  fresh : before.object.msgs.length ≤ index
  kept : ended = false → after = middle
  passed : ended = true → ∀ action, before.object.taskOf message.type = some action →
    ∀ turn, ComesTo react middle index turn →
      (ledger after.log).handed ((ledger middle.log).dropped + index) =
        if turn.object.clientOf fd = some clientId then [(action, some clientId)] else []
  reached : ended = true → (update rounds last react).run before = .ok () after →
    ∃ turn, ComesTo react middle index turn
  final : ended = true → (update rounds last react).run before = .ok () after →
    ∀ later, Run (fun _ _ => True) after later →
      (ledger later.log).handed ((ledger middle.log).dropped + index) =
        (ledger after.log).handed ((ledger middle.log).dropped + index)

section Update
variable [Platform]

theorem Run.drained (run : Run (fun _ _ => True) first last) (drained : first.object.Drained) :
    last.object.Drained :=
  (run.keeps (fun _ _ => True) (fun _ => True) (fun _ _ _ _ _ => id) (fun _ _ _ _ _ _ _ => id) drained trivial).1

/-- The messages whose frames arrive whole are queued in order. -/
theorem Intake.places {before middle : World Server} {parts : List (List Message)}
    (intake : Intake before events fresh middle)
    (carried : List.Forall₂ Carries (receivedOn fd events) parts) :
    ∃ place : Nat → Nat, StrictMono place ∧ ∀ k message, parts.flatten[k]? = some message →
      before.object.msgs.length ≤ place k ∧ ∃ now, middle.object.msgs[place k]? = some now ∧
        now.packet = message.packet ∧ now.fd = some fd := by
  obtain ⟨those, among, packets⟩ := List.sublist_map_iff.mp (readPieces_of_carries carried (intake.reads fd))
  obtain ⟨place, places⟩ :=
    List.sublist_iff_exists_orderEmbedding_getElem?_eq.mp (among.trans List.filter_sublist)
  refine ⟨fun k => before.object.msgs.length + place k,
    fun _ _ less => Nat.add_lt_add_left (place.strictMono less) _, ?_⟩
  intro k message shape
  have read := congrArg (·[k]?) packets
  simp only [List.getElem?_map, shape, Option.map_some] at read
  obtain ⟨now, here, same⟩ := Option.map_eq_some_iff.mp read.symm
  refine ⟨Nat.le_add_right _ _, now, ?_, same, ?_⟩
  · rw [intake.queue, List.getElem?_append_right (Nat.le_add_right _ _), Nat.add_sub_cancel_left, ← places]
    exact here
  · have member := among.subset (List.mem_of_getElem? here)
    simpa using (List.mem_filter.mp member).2

/-- Once the loop has come to a message, that message has been handed over under
the ID of the only client on its descriptor, or to nobody. -/
theorem Intake.passed {first middle turn after : World Server} {now : Message} (intake : Intake first events fresh middle)
    (sole : ∀ otherId, first.object.clientOf fd = some otherId ∨ .assigned fd otherId ∈ events → otherId = clientId)
    (unheard : (ledger first.log).handed ((ledger middle.log).dropped + index) = [])
    (here : middle.object.msgs[index]? = some now) (from_ : now.fd = some fd)
    (handled : first.object.taskOf now.type = some action) (comes : ComesTo react middle index turn)
    (left : Leaves (dispatch react) middle after) :
    (ledger after.log).handed ((ledger middle.log).dropped + index) =
      if turn.object.clientOf fd = some clientId then [(action, some clientId)] else [] := by
  have task : middle.object.taskOf now.type = some action := by
    rw [taskOf, intake.tasks]
    exact handled
  have before : (ledger middle.log).handed ((ledger middle.log).dropped + index) = [] := by
    rw [Ledger.handed, intake.passes]
    exact unheard
  rw [dispatch_hands here task from_ comes left, before, List.nil_append]
  cases known : turn.object.clientOf fd with
  | none => rfl
  | some otherId =>
    have underway := comes.underway (List.getElem?_eq_some_iff.mp here).1.le
    have ours := sole otherId (intake.clients fd otherId (underway.clients fd otherId known))
    subst ours
    rw [if_pos rfl]
    rfl

end Update

section Witnesses

attribute [local instance] Platform.littleEndian

end Witnesses

end Server
end Libftpp
