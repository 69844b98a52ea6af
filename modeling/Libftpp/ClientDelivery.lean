import Libftpp.ClientClosing

/-! What a client is given, to the last pass. Every decoded packet is due to each
action registered for its type, in the order of registration, one packet after
the other. A dispatch loop that returns hands over exactly what is due for its
queue; one that an exception leaves has handed over the beginning of it. -/
namespace Libftpp
open Program World StreamDecoding

namespace Client

/-- One packet that is due to one action. -/
structure Delivery where
  serial : Nat
  slot : Nat
  action : Nat
  packet : Packet

/-- The packet with this number is due to every action registered for its type. -/
def dueOf (client : Client) (serial : Nat) (packet : Packet) : List Delivery :=
  (client.registered packet.type).zipIdx.map fun (action, slot) => ⟨serial, slot, action, packet⟩

/-- What is due for these packets, numbered from here. -/
def due (client : Client) (packets : List Packet) (first : Nat) : List Delivery :=
  (packets.zipIdx first).flatMap fun (packet, serial) => client.dueOf serial packet

/-- The pass is this delivery. Of a message that was queued unread, the first
action finds the whole payload. -/
structure Fulfils (fresh : Prop) (delivery : Delivery) (pass : Pass) : Prop where
  serial : pass.serial = delivery.serial
  slot : pass.slot = delivery.slot
  action : pass.action = delivery.action
  content : Says delivery.packet pass.message
  whole : fresh → delivery.slot = 0 → pass.message.packet = delivery.packet

/-- These deliveries have been made since, in this order. -/
def Made (fresh : Prop) (before : World Client) (deliveries : List Delivery) (after : World Client) : Prop :=
  ∃ new, (ledger after.log).passes = (ledger before.log).passes ++ new ∧
    List.Forall₂ (Fulfils fresh) deliveries new

variable {pass : Pass}

theorem Fulfils.mono (fulfils : Fulfils fresh delivery pass) (weaker : still → fresh) : Fulfils still delivery pass :=
  { fulfils with whole := fun holds => fulfils.whole (weaker holds) }

theorem Made.mono (made : Made fresh before deliveries after) (weaker : still → fresh) :
    Made still before deliveries after := by
  obtain ⟨new, passes, all⟩ := made
  exact ⟨new, passes, all.imp fun _ _ fulfils => fulfils.mono weaker⟩

theorem due_append (client : Client) (packets more : List Packet) (first : Nat) :
    client.due (packets ++ more) first = client.due packets first ++ client.due more (first + packets.length) := by
  rw [due, List.zipIdx_append, List.flatMap_append]
  rfl

theorem due_single (client : Client) (packet : Packet) (first : Nat) :
    client.due [packet] first = client.dueOf first packet := by
  simp [due]

/-- The deliveries of one packet, action by action. -/
theorem dueOf_take_succ {client : Client} (next : (client.registered packet.type)[slot]? = some action) :
    (client.dueOf serial packet).take (slot + 1) =
      (client.dueOf serial packet).take slot ++ [⟨serial, slot, action, packet⟩] := by
  rw [List.take_add_one, dueOf, List.getElem?_map, List.getElem?_zipIdx, next]
  simp

theorem dueOf_take_all {client : Client} (through : (client.registered packet.type).length ≤ slot) :
    (client.dueOf serial packet).take slot = client.dueOf serial packet := by
  apply List.take_of_length_le
  rw [dueOf, List.length_map, List.length_zipIdx]
  exact through

/-- What is due of a queue that says these packets before this message and this action. -/
def dueBefore (start : World Client) (packets : List Packet) (index slot : Nat) : List Delivery :=
  start.object.due (packets.take index) (ledger start.log).dropped ++
    (packets[index]?.elim [] fun packet =>
      (start.object.dueOf ((ledger start.log).dropped + index) packet).take slot)

theorem dueBefore_start (start : World Client) (packets : List Packet) : dueBefore start packets 0 0 = [] := by
  rw [dueBefore, List.take_zero]
  cases packets <;> rfl

theorem dueBefore_succ {packets : List Packet} (said : packets[index]? = some packet)
    (next : (start.object.registered packet.type)[slot]? = some action) :
    dueBefore start packets index (slot + 1) = dueBefore start packets index slot ++
      [⟨(ledger start.log).dropped + index, slot, action, packet⟩] := by
  rw [dueBefore, dueBefore, said]
  simp only [Option.elim_some]
  rw [dueOf_take_succ next, List.append_assoc]

theorem dueBefore_next {packets : List Packet} (said : packets[index]? = some packet)
    (through : (start.object.registered packet.type).length ≤ slot) :
    dueBefore start packets index slot = dueBefore start packets (index + 1) 0 := by
  have inside := (List.getElem?_eq_some_iff.mp said).1
  have nothing : (packets[index + 1]?.elim [] fun packet =>
      (start.object.dueOf ((ledger start.log).dropped + (index + 1)) packet).take 0) = [] := by
    cases packets[index + 1]? <;> rfl
  rw [dueBefore, dueBefore, nothing, List.append_nil, said, Option.elim_some, dueOf_take_all through,
    List.take_add_one, said, Option.toList_some, due_append, due_single,
    List.length_take, Nat.min_eq_left (Nat.le_of_lt inside)]

theorem dueBefore_all (start : World Client) (packets : List Packet) :
    dueBefore start packets packets.length 0 = start.object.due packets (ledger start.log).dropped := by
  rw [dueBefore, List.take_length, List.getElem?_eq_none (Nat.le_refl _), Option.elim_none, List.append_nil]

/-- Up to any place of the loop, a beginning of everything has been due. -/
theorem dueBefore_prefix (start : World Client) (packets : List Packet) (index slot : Nat) :
    dueBefore start packets index slot <+: start.object.due packets (ledger start.log).dropped := by
  cases said : packets[index]? with
  | none =>
    have beyond := List.getElem?_eq_none_iff.mp said
    rw [dueBefore, said, Option.elim_none, List.append_nil, List.take_of_length_le beyond]
  | some packet =>
    have inside := (List.getElem?_eq_some_iff.mp said).1
    have size : (packets.take index).length = index := by
      rw [List.length_take, Nat.min_eq_left (Nat.le_of_lt inside)]
    have split : packets = packets.take index ++ [packet] ++ packets.drop (index + 1) := by
      obtain ⟨_, rfl⟩ := List.getElem?_eq_some_iff.mp said
      rw [List.append_assoc, List.singleton_append, List.getElem_cons_drop, List.take_append_drop]
    have whole : start.object.due packets (ledger start.log).dropped =
        start.object.due (packets.take index) (ledger start.log).dropped ++
          start.object.dueOf ((ledger start.log).dropped + index) packet ++
          start.object.due (packets.drop (index + 1)) ((ledger start.log).dropped + (index + 1)) := by
      conv => lhs; rw [split]
      rw [due_append, due_append, due_single, List.length_append, size]
      rfl
    rw [dueBefore, said, whole, Option.elim_some, List.append_assoc]
    exact List.prefix_append_right_inj _ |>.mpr ((List.take_prefix _ _).trans (List.prefix_append _ _))

/-- The loop has handed over what is due before this message and this action,
and nothing else. Messages it has not come to are as they were. -/
structure Handing (start : World Client) (packets : List Packet) (index slot : Nat) (world : World Client) : Prop
    extends Underway start index slot world where
  untouched : ∀ later, index < later ∨ index = later ∧ slot = 0 →
    world.object.msgs[later]? = start.object.msgs[later]?
  made : Made (start.object.msgs.map Message.packet = packets) start (dueBefore start packets index slot) world

/-- An exception has left the loop after a beginning of what was due. -/
structure Interrupted (start : World Client) (packets : List Packet) (world : World Client) : Prop where
  threw : .threw ∈ world.log
  made : ∃ deliveries, deliveries <+: start.object.due packets (ledger start.log).dropped ∧
    Made (start.object.msgs.map Message.packet = packets) start deliveries world

theorem Handing.refl (start : World Client) (packets : List Packet) : Handing start packets 0 0 start where
  toUnderway := .refl start
  untouched _ _ := rfl
  made := ⟨[], (List.append_nil _).symm, by rw [dueBefore_start]; exact .nil⟩

theorem Handing.hushed (handing : Handing start packets index slot world)
    (steps : Relation.ReflTransGen (Hushed id) world after) : Handing start packets index slot after := by
  obtain ⟨same, _, owner, books⟩ := Hushed.books steps
  have object : after.object = world.object := same
  constructor
  · exact handing.toUnderway.hushed steps
  · rw [object]
    exact handing.untouched
  · rw [Made, books]
    exact handing.made

theorem Handing.invoked (handing : Handing start packets index slot world)
    (queue : List.Forall₂ Says packets start.object.msgs) (shape : start.object.msgs[index]? = some message)
    (found : world.object.msgs[index]? = some now)
    (next : (start.object.registered message.type)[slot]? = some action)
    (same : message.SameContent now) (reads : Nat) :
    Handing start packets index (slot + 1)
      { world with
        object := { world.object with msgs := world.object.msgs.set index (now.readBy reads) }
        log := world.log ++ [.invoked index slot action none now] } := by
  obtain ⟨inside, rfl⟩ := List.getElem?_eq_some_iff.mp shape
  have bound : index < packets.length := queue.length_eq ▸ inside
  have said : packets[index]? = some packets[index] := List.getElem?_eq_getElem bound
  have told := queue.get bound inside
  have type : packets[index].type = start.object.msgs[index].type := told.1.symm
  constructor
  · exact handing.toUnderway.invoked shape next same reads
  · intro later beyond
    have other : index ≠ later := by omega
    rw [List.getElem?_set_ne other]
    exact handing.untouched later (by omega)
  · obtain ⟨new, passes, all⟩ := handing.made
    refine ⟨new ++ [⟨(ledger world.log).dropped + index, slot, action, none,
      (ledger world.log).waiting[index]?.bind Prod.snd, now⟩], ?_, ?_⟩
    · rw [ledger_snoc, ← List.append_assoc, ← passes]
      rfl
    · rw [dueBefore_succ said (type ▸ next)]
      refine List.rel_append all (.cons ⟨?_, rfl, rfl, ?_, ?_⟩ .nil)
      · exact congrArg (· + index) handing.dropped
      · exact told.trans same
      · -- No action has read in the message before the first one is called.
        intro fresh first
        have still := handing.untouched index (Or.inr ⟨rfl, first⟩)
        rw [found, shape, Option.some.injEq] at still
        have unread := congrArg (·[index]?) fresh
        rw [List.getElem?_map, shape, said] at unread
        rw [still]
        exact Option.some.inj unread

theorem Handing.next (handing : Handing start packets index slot world)
    (queue : List.Forall₂ Says packets start.object.msgs) (shape : start.object.msgs[index]? = some message)
    (through : (start.object.registered message.type).length ≤ slot) : Handing start packets (index + 1) 0 world := by
  obtain ⟨inside, rfl⟩ := List.getElem?_eq_some_iff.mp shape
  have bound : index < packets.length := queue.length_eq ▸ inside
  have told := queue.get bound inside
  have type : packets[index].type = start.object.msgs[index].type := told.1.symm
  constructor
  · exact handing.toUnderway.next shape through
  · intro later beyond
    exact handing.untouched later (by omega)
  · rw [← dueBefore_next (List.getElem?_eq_getElem bound) (type ▸ through)]
    exact handing.made

section Loop
variable [Platform]

/-- One action: the delivery is made, whether or not the action throws. -/
theorem invoke_delivers (handing : Handing start packets index slot world)
    (queue : List.Forall₂ Says packets start.object.msgs) (shape : start.object.msgs[index]? = some message)
    (found : world.object.msgs[index]? = some now)
    (next : (start.object.registered message.type)[slot]? = some action)
    (same : message.SameContent now) (reaction : Reaction (Message × SendResult)) :
    Meets (invoke reaction index slot action now) world
      (fun _ => Handing start packets index (slot + 1)) (Interrupted start packets) := by
  have made := handing.invoked queue shape found next same reaction.reads
  apply Meets.bind
  apply Meets.of_run (run_emit ..)
  apply Meets.bind
  apply Meets.of_run (run_alter ..)
  constructor
  · intro _ after ran
    exact made.hushed (act_hushed reaction _ _ (.of_returns (noting_returns.mp ran)))
  · intro error after ran
    obtain ⟨middle, threw, rfl⟩ := noting_throws.mp ran
    obtain ⟨new, passes, all⟩ := (made.hushed (act_hushed reaction _ _ (Or.inr ⟨error, threw⟩))).made
    refine ⟨List.mem_append_right _ (List.mem_singleton.mpr rfl), _, dueBefore_prefix .., new, ?_, all⟩
    rw [ledger_snoc]
    exact passes

theorem handing_rule (react : Nat → Nat → Reaction (Message × SendResult)) (start : World Client)
    (queue : List.Forall₂ Says packets start.object.msgs) :
    LoopRule react start (Handing start packets) (Interrupted start packets) where
  current index slot world message handing shape :=
    (underway_rule react start).current index slot world message handing.toUnderway shape
  invoked index slot world message now action handing shape found next := by
    obtain ⟨_, found', same⟩ := handing.toUnderway.current shape
    cases found.symm.trans found'
    exact invoke_delivers handing queue shape found next same (react index slot)
  passed index slot world message handing shape through := handing.next queue shape through

/-- The whole second half of `update`: all that is due, or a beginning of it. -/
theorem dispatch_hands (react : Nat → Nat → Reaction (Message × SendResult))
    (queue : List.Forall₂ Says packets world.object.msgs) :
    Meets (dispatch react) world
      (fun _ => Made (world.object.msgs.map Message.packet = packets) world
        (world.object.due packets (ledger world.log).dropped))
      (Interrupted world packets) := by
  have books : ledger (world.log ++ [.dispatching]) = ledger world.log := ledger_snoc ..
  have rule := handing_rule react { world with log := world.log ++ [.dispatching] } queue
  apply Meets.bind
  apply Meets.of_run (run_emit ..)
  apply Meets.bind
  apply Meets.of_run (EStateM.run_get ..)
  apply Meets.bind
  apply (rule.dispatchFrom (Nat.zero_add _) (Handing.refl _ packets)).mono
  · intro _ middle through
    obtain ⟨new, passes, all⟩ := through.made
    rw [books] at passes
    rw [← queue.length_eq, dueBefore_all, books] at all
    apply Meets.bind
    apply Meets.of_run (run_emit ..)
    refine Meets.of_run (run_alter ..) ⟨new, ?_, all⟩
    rw [ledger_snoc]
    exact passes
  · rintro after ⟨threw, deliveries, part, new, passes, all⟩
    rw [books] at passes part
    exact ⟨threw, deliveries, part, new, passes, all⟩

end Loop

end Client
end Libftpp
