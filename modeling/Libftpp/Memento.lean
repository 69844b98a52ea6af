import Mathlib.Algebra.Ring.Nat
import Mathlib.Data.List.Forall2
import Libftpp.TypedValues

/-! The memento (`memento.hpp`, `memento.cpp`): an object writes its fields to a
snapshot and reads them back in the same order. Reading a value of a fixed-size
type returns the snapshot by value, so whatever is chained behind it reads from
a temporary and leaves the cursor of the hook's own snapshot where it was. Hence
the fields come back exactly as long as no statement but the last one chains a
read behind one of a fixed-size type. -/
namespace Libftpp
open ByteCodec Program

namespace Memento

/-- `class Memento::Snapshot`: a vector of bytes and a cursor, as in a data
buffer, with the same operators but for what is thrown and returned. -/
abbrev Snapshot := DataBuffer

namespace Snapshot

/-- `Snapshot::reset`. -/
def reset (snapshot : Snapshot) : Snapshot := { snapshot with cursor := 0 }

variable [Platform]

/-- What `Snapshot::operator<<` writes. -/
def put (kind : Kind) (bytes : List UInt8) : Program Exn Snapshot Unit := DataBuffer.writeValue kind bytes

/-- What `Snapshot::operator>>` reads. -/
def take (kind : Kind) : Program Exn Snapshot (List UInt8) :=
  DataBuffer.readValue (.runtimeError "Read out of Buffer !") kind

end Snapshot

/-- What `operator>>` is applied to: the snapshot the hook was given, or a
temporary made by an `operator>>` before it. -/
inductive Stream where
  | named
  | temporary (snapshot : Snapshot)

/-- An object that is being loaded, and the snapshot its hook was given. -/
structure Loading where
  fields : List (List UInt8)
  snapshot : Snapshot

/-- An object and a snapshot its owner keeps. -/
structure Kept where
  fields : List (List UInt8)
  snapshot : Snapshot

/-- What `operator>>` returns after it has moved the snapshot it was applied to:
the template a copy, the one for strings a reference. -/
def Stream.result (stream : Stream) (moved : Snapshot) : Kind → Stream
  | .fixed _ _ _ => .temporary moved
  | .text => match stream with
    | .named => .named
    | .temporary _ => .temporary moved

/-- The fewest bytes a value of the type takes in a snapshot. -/
def least : Kind → Nat
  | .fixed width _ _ => width.toNat
  | .text => 8

/-- How the two hooks of a class treat its fields: the fields read in each
statement of `_loadFromSnapshot`, in order. An object has a table pointer beside
its fields, and so takes more room than the least snapshot of it. -/
structure Hooks where
  statements : List (List Kind)
  storable : (statements.flatten.map least).sum < maxSize

/-- All fields, in order. -/
def Hooks.kinds (hooks : Hooks) : List Kind := hooks.statements.flatten

/-- What the fields of an object hold. -/
structure Fields (hooks : Hooks) where
  values : List (List UInt8)
  typed : List.Forall₂ Kind.Holds hooks.kinds values

section Operations
variable [Platform]

/-- `_saveToSnapshot`. -/
def saveToSnapshot : List Kind → List (List UInt8) → Program Exn Snapshot Unit
  | kind :: kinds, bytes :: fields => do
    Snapshot.put kind bytes
    saveToSnapshot kinds fields
  | _, _ => pure ()

/-- `stream >> field`. -/
def extract (stream : Stream) (field : Nat) (kind : Kind) : Program Exn Loading Stream := fun loading =>
  match stream with
  | .named =>
    match (Snapshot.take kind).run loading.snapshot with
    | .ok bytes moved => .ok (stream.result moved kind) ⟨loading.fields.set field bytes, moved⟩
    | .error halt moved => .error halt { loading with snapshot := moved }
  | .temporary snapshot =>
    match (Snapshot.take kind).run snapshot with
    | .ok bytes moved => .ok (stream.result moved kind) { loading with fields := loading.fields.set field bytes }
    | .error halt _ => .error halt loading

/-- `stream >> field >> field ...`, from this field on. -/
def chain (stream : Stream) (field : Nat) : List Kind → Program Exn Loading Unit
  | [] => pure ()
  | kind :: kinds => do
    let next ← extract stream field kind
    chain next (field + 1) kinds

/-- `_loadFromSnapshot`, from this field on. -/
def loadFromSnapshot (field : Nat) : List (List Kind) → Program Exn Loading Unit
  | [] => pure ()
  | statement :: statements => do
    chain .named field statement
    loadFromSnapshot (field + statement.length) statements

/-- `Memento::save`. -/
def save (hooks : Hooks) (fields : List (List UInt8)) : Program Exn Kept Snapshot :=
  withLocal .empty (saveToSnapshot hooks.kinds fields)

/-- `Memento::load`. -/
def load (hooks : Hooks) : Program Exn Kept Unit :=
  zoom (fun kept => ⟨kept.fields, kept.snapshot.reset⟩) (fun kept loading => { kept with fields := loading.fields })
    (loadFromSnapshot 0 hooks.statements)

/-- The object changes and is loaded, again and again. -/
def reload (hooks : Hooks) : List (Fields hooks) → Program Exn Kept Unit
  | [] => pure ()
  | changed :: later => do
    modify fun kept => { kept with fields := changed.values }
    load hooks
    reload hooks later

/-- Whatever an object has been saved with, and however often it changes, each
load brings it back and leaves the snapshot as it is. -/
def Restores (hooks : Hooks) : Prop :=
  ∀ (saved : Fields hooks) (kept : Kept) (snapshot : Snapshot), (save hooks saved.values).run kept = .ok snapshot kept →
    ∀ (changes : List (Fields hooks)) (last : Fields hooks),
      (reload hooks (changes ++ [last])).run ⟨saved.values, snapshot⟩ = .ok () ⟨saved.values, snapshot⟩

end Operations

/-- Every statement that is followed by a further read chains nothing behind a
value of a fixed-size type. -/
def EndAtFixed : List (List Kind) → Prop
  | [] => True
  | statement :: later => (later.flatten ≠ [] → ∀ kind ∈ statement.dropLast, kind = .text) ∧ EndAtFixed later

/-- How many reads of a chain move the snapshot the hook was given. -/
def reach : List Kind → Nat
  | [] => 0
  | .fixed _ _ _ :: _ => 1
  | .text :: kinds => reach kinds + 1

theorem reach_le (kinds : List Kind) : reach kinds ≤ kinds.length := by
  induction kinds with
  | nil => exact Nat.le_refl _
  | cons kind kinds ih => cases kind <;> simp [reach, ih]

theorem reach_full_iff (kinds : List Kind) :
    reach kinds = kinds.length ↔ ∀ kind ∈ kinds.dropLast, kind = .text := by
  induction kinds with
  | nil => simp [reach]
  | cons kind kinds ih =>
    cases kinds with
    | nil => cases kind <;> simp [reach]
    | cons next kinds =>
      rw [List.dropLast_cons_of_ne_nil (List.cons_ne_nil _ _), List.forall_mem_cons, ← ih]
      cases kind <;> simp [reach]

theorem endAtFixed_blank {statements : List (List Kind)} (none : statements.flatten = []) : EndAtFixed statements := by
  induction statements with
  | nil => trivial
  | cons statement statements ih =>
    have later := (List.append_eq_nil_iff.mp none).2
    exact ⟨fun more => absurd later more, ih later⟩

/-- Statements that do not meet the condition have a first one that reads behind
a fixed-size value and is followed by others. -/
theorem exists_first_beyond {statements : List (List Kind)} (beyond : ¬ EndAtFixed statements) :
    ∃ earlier statement later, statements = earlier ++ statement :: later ∧ later.flatten ≠ [] ∧
      reach statement < statement.length ∧ ∀ other ∈ earlier, reach other = other.length := by
  induction statements with
  | nil => exact absurd trivial beyond
  | cons statement statements ih =>
    have more : statements.flatten ≠ [] := fun none =>
      beyond ⟨fun more => absurd none more, endAtFixed_blank none⟩
    by_cases full : reach statement = statement.length
    · have later : ¬ EndAtFixed statements := fun ends => beyond ⟨fun _ => (reach_full_iff statement).mp full, ends⟩
      obtain ⟨earlier, first, rest, rfl, follows, short, fulls⟩ := ih later
      exact ⟨statement :: earlier, first, rest, rfl, follows, short, List.forall_mem_cons.mpr ⟨full, fulls⟩⟩
    · exact ⟨[], statement, statements, rfl, more, Nat.lt_of_le_of_ne (reach_le statement) full, nofun⟩

/-- Statements that read something have a first one that does. -/
theorem exists_first_read {statements : List (List Kind)} (some : statements.flatten ≠ []) :
    ∃ blanks kind kinds later, statements = blanks ++ (kind :: kinds) :: later ∧ ∀ blank ∈ blanks, blank = [] := by
  induction statements with
  | nil => exact absurd rfl some
  | cons statement statements ih =>
    cases statement with
    | cons kind kinds => exact ⟨[], kind, kinds, statements, rfl, nofun⟩
    | nil =>
      obtain ⟨blanks, kind, kinds, later, rfl, none⟩ := ih some
      exact ⟨[] :: blanks, kind, kinds, later, rfl, List.forall_mem_cons.mpr ⟨rfl, none⟩⟩

/-- Writes values to the fields from this one on. -/
def overwrite (fields : List (List UInt8)) (field : Nat) : List (List UInt8) → List (List UInt8)
  | [] => fields
  | value :: values => overwrite (fields.set field value) (field + 1) values

theorem overwrite_append (fields : List (List UInt8)) (field : Nat) (first rest : List (List UInt8)) :
    overwrite fields field (first ++ rest) = overwrite (overwrite fields field first) (field + first.length) rest := by
  induction first generalizing fields field with
  | nil => rfl
  | cons value first ih =>
    rw [List.cons_append, overwrite, ih, overwrite, List.length_cons]
    congr 1
    omega

theorem overwrite_length (fields : List (List UInt8)) (field : Nat) (values : List (List UInt8)) :
    (overwrite fields field values).length = fields.length := by
  induction values generalizing fields field with
  | nil => rfl
  | cons value values ih => rw [overwrite, ih, List.length_set]

theorem overwrite_all (done : List (List UInt8)) (same : fields.length = values.length) :
    overwrite (done ++ fields) done.length values = done ++ values := by
  induction values generalizing done fields with
  | nil => rw [overwrite, List.eq_nil_of_length_eq_zero same]
  | cons value values ih =>
    cases fields with
    | nil => cases same
    | cons field fields =>
      have step := ih (done ++ [value]) (Nat.succ.inj same)
      rw [List.length_append, List.append_assoc, List.append_assoc] at step
      rw [overwrite, List.set_append_right _ _ (Nat.le_refl _), Nat.sub_self]
      exact step

/-- A value of the type whose bytes are all 0, or that has none. -/
def quiet : Kind → List UInt8
  | .fixed width _ _ => List.replicate width.toNat 0
  | .text => []

/-- A value of the type whose bytes are all 255, or that has one character. -/
def loud : Kind → List UInt8
  | .fixed width _ _ => List.replicate width.toNat 255
  | .text => [120]

theorem quiet_holds (kind : Kind) : kind.Holds (quiet kind) := by
  cases kind with
  | fixed width positive bounded => exact List.length_replicate
  | text => exact Nat.zero_le _

theorem loud_holds (kind : Kind) : kind.Holds (loud kind) := by
  cases kind with
  | fixed width positive bounded => exact List.length_replicate
  | text => exact (by decide : 1 ≤ maxSize)

/-- Values of fields in a row are the values of the first ones and of the rest. -/
theorem typed_split (typed : List.Forall₂ Kind.Holds (first ++ rest) values) :
    ∃ front back, values = front ++ back ∧ List.Forall₂ Kind.Holds first front ∧ List.Forall₂ Kind.Holds rest back := by
  refine ⟨values.take first.length, values.drop first.length, (List.take_append_drop _ _).symm, ?_, ?_⟩
  · have taken := List.forall₂_take first.length typed
    rwa [List.take_left' rfl] at taken
  · have dropped := List.forall₂_drop first.length typed
    rwa [List.drop_left' rfl] at dropped

theorem typed_quiet (kinds : List Kind) : List.Forall₂ Kind.Holds kinds (kinds.map quiet) := by
  rw [List.forall₂_map_right_iff, List.forall₂_same]
  exact fun kind _ => quiet_holds kind

theorem typed_append (front : List.Forall₂ Kind.Holds first values) (back : List.Forall₂ Kind.Holds rest more) :
    List.Forall₂ Kind.Holds (first ++ rest) (values ++ more) := List.rel_append front back

section Loads
variable [Platform]

/-- The values of these fields, one behind the other. -/
def encodeFields (kinds : List Kind) (values : List (List UInt8)) : List UInt8 :=
  (List.zipWith Kind.encode kinds values).flatten

theorem encodeFields_cons (kind : Kind) (kinds : List Kind) (value : List UInt8) (values : List (List UInt8)) :
    encodeFields (kind :: kinds) (value :: values) = kind.encode value ++ encodeFields kinds values := rfl

theorem encodeFields_append {first : List Kind} {values : List (List UInt8)} (same : first.length = values.length)
    (rest : List Kind) (more : List (List UInt8)) :
    encodeFields (first ++ rest) (values ++ more) = encodeFields first values ++ encodeFields rest more := by
  rw [encodeFields, List.zipWith_append same, List.flatten_append, encodeFields, encodeFields]

/-! ### Reading -/

/-- The snapshot a stream stands for. -/
def Stream.current (loading : Loading) : Stream → Snapshot
  | .named => loading.snapshot
  | .temporary snapshot => snapshot

/-- What reading from a stream makes of the hook's snapshot. -/
def Stream.moves (loading : Loading) (moved : Snapshot) : Stream → Snapshot
  | .named => moved
  | .temporary _ => loading.snapshot

/-- A field is extracted by one read of the stream's snapshot. -/
theorem extract_returns {stream : Stream} {kind : Kind} :
    (extract stream field kind).run loading = .ok next after ↔
      ∃ bytes moved, (Snapshot.take kind).run (stream.current loading) = .ok bytes moved ∧
        next = stream.result moved kind ∧
        after = ⟨loading.fields.set field bytes, stream.moves loading moved⟩ := by
  cases stream
  all_goals
    simp only [extract, EStateM.run, Stream.current, Stream.moves]
    split
    · rename_i ran
      simp only [EStateM.Result.ok.injEq, ran]
      constructor
      · rintro ⟨rfl, rfl⟩
        exact ⟨_, _, ⟨rfl, rfl⟩, rfl, rfl⟩
      · rintro ⟨_, _, ⟨rfl, rfl⟩, rfl, rfl⟩
        exact ⟨rfl, rfl⟩
    · rename_i ran
      simp [ran]

/-- Behind a temporary, all fields are read and the hook's snapshot stays. -/
theorem chain_temporary {kinds : List Kind} {values : List (List UInt8)}
    (typed : List.Forall₂ Kind.Holds kinds values) (valid : DataBuffer.Valid snapshot)
    (shape : snapshot.unread = encodeFields kinds values ++ rest) :
    (chain (.temporary snapshot) field kinds).run loading =
      .ok () { loading with fields := overwrite loading.fields field values } := by
  induction typed generalizing snapshot field loading with
  | nil => rfl
  | @cons kind value kinds values holds _ ih =>
    rw [encodeFields_cons, List.append_assoc] at shape
    obtain ⟨moved, ran, inside, behind, _⟩ :=
      DataBuffer.readValue_run (.runtimeError "Read out of Buffer !") valid holds shape
    have result : (Stream.temporary snapshot).result moved kind = .temporary moved := by cases kind <;> rfl
    refine bind_returns.mpr ⟨_, _, extract_returns.mpr ⟨value, moved, ran, rfl, rfl⟩, ?_⟩
    rw [result, ih inside behind]
    rfl

/-- A chain on the hook's snapshot reads all its fields, and moves that snapshot
past those within its reach. -/
theorem chain_named (field : Nat) (loading : Loading) {kinds : List Kind} {values : List (List UInt8)}
    (typed : List.Forall₂ Kind.Holds kinds values) (valid : DataBuffer.Valid loading.snapshot)
    (shape : loading.snapshot.unread = encodeFields kinds values ++ rest) :
    ∃ moved : Snapshot, (chain .named field kinds).run loading =
        .ok () ⟨overwrite loading.fields field values, moved⟩ ∧ moved.Valid ∧
      moved.unread = encodeFields (kinds.drop (reach kinds)) (values.drop (reach kinds)) ++ rest := by
  induction typed generalizing field loading with
  | nil => exact ⟨loading.snapshot, rfl, valid, shape⟩
  | @cons kind value kinds values holds typed ih =>
    rw [encodeFields_cons, List.append_assoc] at shape
    obtain ⟨moved, ran, inside, behind, _⟩ :=
      DataBuffer.readValue_run (.runtimeError "Read out of Buffer !") valid holds shape
    have first := @extract_returns _ field loading _ _ .named kind |>.mpr ⟨value, moved, ran, rfl, rfl⟩
    cases kind with
    | fixed width positive bounded =>
      refine ⟨moved, bind_returns.mpr ⟨_, _, first, ?_⟩, inside, behind⟩
      exact chain_temporary typed inside behind
    | text =>
      obtain ⟨last, chained, inside', behind'⟩ := ih (field + 1) ⟨loading.fields.set field value, moved⟩ inside behind
      exact ⟨last, bind_returns.mpr ⟨_, _, first, chained⟩, inside', behind'⟩

/-- The first of several statements reads its fields from the front. -/
theorem chain_first (field : Nat) (loading : Loading) {kinds others : List Kind} {values : List (List UInt8)}
    (typed : List.Forall₂ Kind.Holds (kinds ++ others) values) (valid : DataBuffer.Valid loading.snapshot)
    (shape : loading.snapshot.unread = encodeFields (kinds ++ others) values ++ rest) :
    ∃ first more, values = first ++ more ∧ kinds.length = first.length ∧ List.Forall₂ Kind.Holds others more ∧
      ∃ moved : Snapshot, (chain .named field kinds).run loading =
          .ok () ⟨overwrite loading.fields field first, moved⟩ ∧ moved.Valid ∧
        moved.unread = encodeFields (kinds.drop (reach kinds)) (first.drop (reach kinds)) ++
          (encodeFields others more ++ rest) := by
  obtain ⟨first, more, rfl, typedFirst, typedMore⟩ := typed_split typed
  have same := typedFirst.length_eq
  rw [encodeFields_append same, List.append_assoc] at shape
  exact ⟨first, more, rfl, same, typedMore, chain_named field loading typedFirst valid shape⟩

/-- Statements whose chains are all within reach read all their fields in place. -/
theorem loadFromSnapshot_run (field : Nat) (loading : Loading) {statements : List (List Kind)}
    {values : List (List UInt8)}
    (full : ∀ statement ∈ statements, reach statement = statement.length)
    (typed : List.Forall₂ Kind.Holds statements.flatten values) (valid : DataBuffer.Valid loading.snapshot)
    (shape : loading.snapshot.unread = encodeFields statements.flatten values ++ rest) :
    ∃ moved : Snapshot, (loadFromSnapshot field statements).run loading =
      .ok () ⟨overwrite loading.fields field values, moved⟩ ∧ moved.Valid ∧ moved.unread = rest := by
  induction statements generalizing field loading values with
  | nil =>
    cases typed
    exact ⟨loading.snapshot, rfl, valid, shape⟩
  | cons statement statements ih =>
    rw [List.flatten_cons] at typed shape
    obtain ⟨first, more, rfl, same, typedMore, moved, ran, inside, behind⟩ := chain_first field loading typed valid shape
    rw [full statement (List.mem_cons_self ..), List.drop_length, same, List.drop_length] at behind
    obtain ⟨last, ran', inside', behind'⟩ := ih (field + statement.length) ⟨_, moved⟩
      (fun other member => full other (List.mem_cons_of_mem _ member)) typedMore inside behind
    refine ⟨last, bind_returns.mpr ⟨(), _, ran, ?_⟩, inside', behind'⟩
    rw [overwrite_append, ← same]
    exact ran'

/-- Without reads chained behind a fixed-size one and followed by others, all
fields are read in place. -/
theorem loadFromSnapshot_reads (field : Nat) (loading : Loading) {statements : List (List Kind)}
    {values : List (List UInt8)}
    (ends : EndAtFixed statements) (typed : List.Forall₂ Kind.Holds statements.flatten values)
    (valid : DataBuffer.Valid loading.snapshot)
    (shape : loading.snapshot.unread = encodeFields statements.flatten values ++ rest) :
    ∃ moved : Snapshot, (loadFromSnapshot field statements).run loading =
      .ok () ⟨overwrite loading.fields field values, moved⟩ := by
  induction statements generalizing field loading values with
  | nil =>
    cases typed
    exact ⟨loading.snapshot, rfl⟩
  | cons statement statements ih =>
    rw [List.flatten_cons] at typed shape
    obtain ⟨first, more, rfl, same, typedMore, moved, ran, inside, behind⟩ := chain_first field loading typed valid shape
    rw [overwrite_append, ← same]
    by_cases none : statements.flatten = []
    · -- what follows reads nothing, wherever the snapshot stands
      have blank : ∀ other ∈ statements, reach other = other.length := by
        intro other member
        rw [List.flatten_eq_nil_iff.mp none other member]
        rfl
      have nothing : moved.unread = encodeFields statements.flatten more ++ moved.unread := by
        rw [none, encodeFields, List.zipWith_nil_left]
        rfl
      obtain ⟨last, ran', _⟩ :=
        loadFromSnapshot_run (field + statement.length) ⟨_, moved⟩ blank typedMore inside nothing
      exact ⟨last, bind_returns.mpr ⟨(), _, ran, ran'⟩⟩
    · rw [(reach_full_iff statement).mpr (ends.1 none), List.drop_length, same, List.drop_length] at behind
      obtain ⟨last, ran'⟩ := ih (field + statement.length) ⟨_, moved⟩ ends.2 typedMore inside behind
      exact ⟨last, bind_returns.mpr ⟨(), _, ran, ran'⟩⟩

/-! ### Saving -/

theorem saveToSnapshot_returns {kinds : List Kind} {values : List (List UInt8)}
    (typed : List.Forall₂ Kind.Holds kinds values) (ran : (saveToSnapshot kinds values).run before = .ok () after) :
    after.buffer.bytes = before.buffer.bytes ++ encodeFields kinds values := by
  induction typed generalizing before with
  | nil =>
    cases ran
    exact (List.append_nil _).symm
  | cons _ _ ih =>
    obtain ⟨_, middle, first, rest⟩ := bind_returns.mp ran
    rw [ih rest, (DataBuffer.writeValue_returns first).1, encodeFields_cons, List.append_assoc]

theorem saveToSnapshot_run {kinds : List Kind} {values : List (List UInt8)}
    (typed : List.Forall₂ Kind.Holds kinds values)
    (fits : before.buffer.bytes.length + (encodeFields kinds values).length ≤ maxSize) :
    ∃ after, (saveToSnapshot kinds values).run before = .ok () after := by
  induction typed generalizing before with
  | nil => exact ⟨before, rfl⟩
  | cons _ _ ih =>
    rw [encodeFields_cons, List.length_append, ← Nat.add_assoc] at fits
    obtain ⟨middle, first⟩ := DataBuffer.writeValue_run (Nat.le_of_add_right_le fits)
    rw [← List.length_append, ← (DataBuffer.writeValue_returns first).1] at fits
    obtain ⟨after, rest⟩ := ih fits
    exact ⟨after, bind_returns.mpr ⟨(), middle, first, rest⟩⟩

theorem save_returns {hooks : Hooks} (saved : Fields hooks)
    (ran : (save hooks saved.values).run kept = .ok snapshot after) :
    snapshot.buffer.bytes = encodeFields hooks.kinds saved.values := by
  obtain ⟨_, written⟩ := of_withLocal ran
  exact saveToSnapshot_returns saved.typed written

/-- A load that starts from any object brings the saved one back. -/
theorem load_run {hooks : Hooks} (ends : EndAtFixed hooks.statements) (saved changed : Fields hooks)
    (held : snapshot.buffer.bytes = encodeFields hooks.kinds saved.values) :
    (load hooks).run ⟨changed.values, snapshot⟩ = .ok () ⟨saved.values, snapshot⟩ := by
  have whole : DataBuffer.unread snapshot.reset = encodeFields hooks.statements.flatten saved.values ++ [] := by
    rw [List.append_nil]
    exact held
  obtain ⟨moved, ran⟩ := loadFromSnapshot_reads 0 ⟨changed.values, snapshot.reset⟩ ends saved.typed (Nat.zero_le _) whole
  have same : changed.values.length = saved.values.length :=
    changed.typed.length_eq.symm.trans saved.typed.length_eq
  have all := overwrite_all [] same
  simp only [List.nil_append, List.length_nil] at all
  rw [all] at ran
  rw [load, run_zoom, ran]

theorem reload_run {hooks : Hooks} (ends : EndAtFixed hooks.statements) (saved : Fields hooks)
    (held : snapshot.buffer.bytes = encodeFields hooks.kinds saved.values) (changes : List (Fields hooks)) :
    (reload hooks changes).run ⟨saved.values, snapshot⟩ = .ok () ⟨saved.values, snapshot⟩ := by
  induction changes with
  | nil => rfl
  | cons changed changes ih =>
    exact bind_returns.mpr ⟨(), ⟨changed.values, snapshot⟩, rfl,
      bind_returns.mpr ⟨(), _, load_run ends saved changed held, ih⟩⟩

/-! ### What is read from the wrong place -/

theorem quiet_length (kind : Kind) : (kind.encode (quiet kind)).length = least kind := by
  cases kind <;> simp [Kind.encode, quiet, least]

theorem loud_length (kind : Kind) : (kind.encode (loud kind)).length ≤ least kind + 1 := by
  cases kind <;> simp [Kind.encode, loud, least]

theorem encodeSize_zero : encodeSize 0 = List.replicate 8 0 := by
  unfold encodeSize toBytes
  cases Platform.order <;> rfl

/-- A quiet value starts with a byte 0 in the stream. -/
theorem quiet_head (kind : Kind) : ∃ rest, kind.encode (quiet kind) = 0 :: rest := by
  cases kind with
  | fixed width positive bounded =>
    obtain ⟨count, shape⟩ := Nat.exists_eq_add_of_lt positive
    exact ⟨_, by rw [Kind.encode, quiet, shape, Nat.zero_add, List.replicate_succ]⟩
  | text => exact ⟨_, by rw [Kind.encode, quiet]; exact congrArg (· ++ []) encodeSize_zero⟩

/-- Where a quiet value stands, no loud one of a fixed-size type is read. -/
theorem take_quiet {width : UInt64} {positive : 0 < width.toNat} {bounded : width.toNat ≤ maxSize} {kind : Kind}
    (shape : snapshot.unread = kind.encode (quiet kind) ++ rest)
    (ran : (Snapshot.take (.fixed width positive bounded)).run snapshot = .ok bytes moved) :
    bytes ≠ loud (.fixed width positive bounded) := by
  obtain ⟨_, taken⟩ := DataBuffer.read_returns ran
  obtain ⟨more, head⟩ := quiet_head kind
  obtain ⟨count, size⟩ := Nat.exists_eq_add_of_lt positive
  intro same
  rw [taken, shape, head, loud, size, Nat.zero_add, List.cons_append, List.take_succ_cons, List.replicate_succ] at same
  exact absurd (List.cons.inj same).1 (by decide)

/-- Where a loud value stands, no empty string is read. -/
theorem take_loud {kind : Kind} (shape : snapshot.unread = kind.encode (loud kind) ++ rest)
    (ran : (Snapshot.take .text).run snapshot = .ok bytes moved) : bytes ≠ [] := by
  obtain ⟨sizeBytes, middle, first, second⟩ := bind_returns.mp ran
  obtain ⟨enough, taken⟩ := DataBuffer.read_returns first
  obtain ⟨more, copied⟩ := DataBuffer.read_returns (DataBuffer.assignFrom_returns.mp second)
  rintro rfl
  have zero : decodeSize sizeBytes = 0 := by
    have length := congrArg List.length copied
    rw [List.length_take, Nat.min_eq_left more, List.length_nil] at length
    exact UInt64.toNat_inj.mp length.symm
  have sized : sizeBytes.length = 8 := by
    rw [taken, List.length_take]
    exact Nat.min_eq_left enough
  cases kind with
  | fixed width positive bounded =>
    -- the first byte of the length is 255
    obtain ⟨count, size⟩ := Nat.exists_eq_add_of_lt positive
    have head : (Kind.fixed width positive bounded).encode (loud (.fixed width positive bounded)) =
        255 :: List.replicate count 255 := by
      rw [Kind.encode, loud, size, Nat.zero_add, List.replicate_succ]
    have bytes := encodeSize_decodeSize sized
    rw [zero, encodeSize_zero, taken, shape, head] at bytes
    exact absurd (List.cons.inj bytes).1 (by decide)
  | text =>
    have one : sizeBytes = encodeSize 1 := by
      rw [taken, shape, Kind.encode, List.append_assoc]
      exact List.take_left' (encodeSize_length _)
    rw [one, decodeSize_encodeSize] at zero
    exact absurd zero (by decide)

/-! ### Fields behind the one that is read -/

theorem chain_keeps {stream : Stream} {kinds : List Kind} (ran : (chain stream field kinds).run before = .ok () after)
    (earlier : place < field) : after.fields[place]? = before.fields[place]? := by
  induction kinds generalizing stream field before with
  | nil =>
    cases ran
    rfl
  | cons kind kinds ih =>
    obtain ⟨next, middle, first, rest⟩ := bind_returns.mp ran
    obtain ⟨bytes, moved, _, _, rfl⟩ := extract_returns.mp first
    rw [ih rest (Nat.lt_succ_of_lt earlier)]
    exact List.getElem?_set_ne (Nat.ne_of_gt earlier)

theorem loadFromSnapshot_keeps {statements : List (List Kind)}
    (ran : (loadFromSnapshot field statements).run before = .ok () after)
    (earlier : place < field) : after.fields[place]? = before.fields[place]? := by
  induction statements generalizing field before with
  | nil =>
    cases ran
    rfl
  | cons statement statements ih =>
    obtain ⟨_, middle, first, rest⟩ := bind_returns.mp ran
    rw [ih rest (Nat.lt_add_right _ earlier), chain_keeps first earlier]

theorem loadFromSnapshot_append (first rest : List (List Kind)) (field : Nat) (before : Loading) :
    (loadFromSnapshot field (first ++ rest)).run before =
      (do
        loadFromSnapshot field first
        loadFromSnapshot (field + first.flatten.length) rest).run before := by
  induction first generalizing field before with
  | nil => rfl
  | cons statement first ih =>
    simp only [List.cons_append, loadFromSnapshot, List.flatten_cons, List.length_append, ← Nat.add_assoc, bind_assoc]
    rw [EStateM.run_bind, EStateM.run_bind]
    cases (chain .named field statement).run before with
    | ok _ middle => exact ih _ middle
    | error halt middle => rfl

theorem loadFromSnapshot_blank {blanks : List (List Kind)} (blank : ∀ statement ∈ blanks, statement = []) (field : Nat)
    (before : Loading) : (loadFromSnapshot field blanks).run before = .ok () before := by
  induction blanks generalizing field with
  | nil => rfl
  | cons statement blanks ih =>
    rw [List.forall_mem_cons] at blank
    rw [blank.1]
    exact bind_returns.mpr ⟨(), before, rfl, ih blank.2 _⟩

/-- Behind a statement that reads beyond its reach, the next field is read from
where the hook's snapshot was left, and keeps what is read there. -/
theorem read_where_left {earlier blanks last : List (List Kind)} {statement kinds : List Kind} {kind : Kind}
    {front second : List (List UInt8)} (full : ∀ other ∈ earlier, reach other = other.length)
    (blank : ∀ other ∈ blanks, other = []) (typedFront : List.Forall₂ Kind.Holds earlier.flatten front)
    (typedSecond : List.Forall₂ Kind.Holds statement second) (valid : DataBuffer.Valid before.snapshot)
    (shape : before.snapshot.unread = encodeFields earlier.flatten front ++ (encodeFields statement second ++ rest))
    (room : front.length + second.length < before.fields.length)
    (ran : (loadFromSnapshot 0 (earlier ++ statement :: (blanks ++ (kind :: kinds) :: last))).run before =
      .ok () after) :
    ∃ (snapshot : Snapshot) (bytes : List UInt8) (moved : Snapshot),
      snapshot.unread = encodeFields (statement.drop (reach statement)) (second.drop (reach statement)) ++ rest ∧
        (Snapshot.take kind).run snapshot = .ok bytes moved ∧
          after.fields[front.length + second.length]? = some bytes := by
  have place : earlier.flatten.length + statement.length + blanks.flatten.length = front.length + second.length := by
    rw [List.flatten_eq_nil_iff.mpr blank, typedFront.length_eq, typedSecond.length_eq]
    rfl
  -- the statements before it are read in place
  obtain ⟨reached, first, inside, behind⟩ := loadFromSnapshot_run 0 before full typedFront valid shape
  rw [loadFromSnapshot_append, EStateM.run_bind, first, Nat.zero_add] at ran
  -- then the statement itself, which moves the snapshot as far as it reaches
  obtain ⟨left, chained, _, stands⟩ := chain_named earlier.flatten.length ⟨overwrite before.fields 0 front, reached⟩
    typedSecond inside behind
  obtain ⟨_, middle, second', ran⟩ := bind_returns.mp ran
  cases chained.symm.trans second'
  rw [loadFromSnapshot_append, EStateM.run_bind, loadFromSnapshot_blank blank, place] at ran
  -- then the next field, which no later statement touches
  obtain ⟨_, chainEnd, chained', later⟩ := bind_returns.mp ran
  obtain ⟨next, extracted, extracts, others⟩ := bind_returns.mp chained'
  obtain ⟨bytes, moved, taken, _, rfl⟩ := extract_returns.mp extracts
  refine ⟨left, bytes, moved, stands, taken, ?_⟩
  rw [loadFromSnapshot_keeps later (by rw [List.length_cons]; omega), chain_keeps others (Nat.lt_succ_self _)]
  exact List.getElem?_set_self (by rwa [overwrite_length, overwrite_length])

/-- Were every load to bring the object back, the field behind such a statement
would be read right from where the snapshot was left. -/
theorem Restores.reads {hooks : Hooks} (restores : Restores hooks) {earlier blanks last : List (List Kind)}
    {statement kinds : List Kind} {kind : Kind} {front second more : List (List UInt8)} {value : List UInt8}
    (shape : hooks.statements = earlier ++ statement :: (blanks ++ (kind :: kinds) :: last))
    (full : ∀ other ∈ earlier, reach other = other.length) (blank : ∀ other ∈ blanks, other = [])
    (typedFront : List.Forall₂ Kind.Holds earlier.flatten front)
    (typedSecond : List.Forall₂ Kind.Holds statement second)
    (typedRest : List.Forall₂ Kind.Holds (kind :: (kinds ++ last.flatten)) (value :: more))
    (fits : (encodeFields hooks.kinds (front ++ (second ++ value :: more))).length ≤ maxSize) :
    ∃ (snapshot : Snapshot) (rest : List UInt8) (moved : Snapshot),
      snapshot.unread = encodeFields (statement.drop (reach statement)) (second.drop (reach statement)) ++ rest ∧
        (Snapshot.take kind).run snapshot = .ok value moved := by
  have all : hooks.kinds = earlier.flatten ++ (statement ++ (kind :: (kinds ++ last.flatten))) := by
    simp [Hooks.kinds, shape, List.flatten_eq_nil_iff.mpr blank]
  have typed : List.Forall₂ Kind.Holds hooks.kinds (front ++ (second ++ value :: more)) := by
    rw [all]
    exact typed_append typedFront (typed_append typedSecond typedRest)
  let saved : Fields hooks := ⟨_, typed⟩
  obtain ⟨snapshot, written⟩ := @saveToSnapshot_run _ .empty _ _ typed (by rwa [← Nat.zero_add (List.length _)] at fits)
  have held := save_returns saved (withLocal_returns written : (save hooks saved.values).run ⟨[], .empty⟩ = _)
  have back := restores saved ⟨[], .empty⟩ snapshot (withLocal_returns written) [] saved
  -- the load returned with all fields as saved
  obtain ⟨_, _, set, back⟩ := bind_returns.mp back
  cases set
  obtain ⟨_, _, loaded, ended⟩ := bind_returns.mp back
  cases ended
  rw [load, run_zoom] at loaded
  split at loaded
  · rename_i inner ran
    have fields : inner.fields = saved.values := by
      injection loaded with _ same
      injection same
    have unread : DataBuffer.unread snapshot.reset = encodeFields earlier.flatten front ++
        (encodeFields statement second ++ encodeFields (kind :: (kinds ++ last.flatten)) (value :: more)) := by
      rw [← encodeFields_append typedSecond.length_eq, ← encodeFields_append typedFront.length_eq, ← all]
      exact held
    rw [shape] at ran
    have start : DataBuffer.Valid snapshot.reset := Nat.zero_le _
    have room : front.length + second.length < saved.values.length := by simp [saved]
    obtain ⟨left, bytes, moved, stands, taken, kept⟩ :=
      read_where_left full blank typedFront typedSecond start unread room ran
    have same : bytes = value := by
      rw [fields] at kept
      simpa [saved] using kept.symm
    exact ⟨left, _, moved, stands, same ▸ taken⟩
  · cases loaded

theorem encode_quiet_length (kinds : List Kind) :
    (encodeFields kinds (kinds.map quiet)).length = (kinds.map least).sum := by
  induction kinds with
  | nil => rfl
  | cons kind kinds ih =>
    rw [List.map_cons, encodeFields_cons, List.length_append, quiet_length, ih, List.map_cons, List.sum_cons]

/-- An object with one loud value among quiet ones can be saved. -/
theorem encode_one_loud (hooks : Hooks) (shape : hooks.kinds = first ++ kind :: rest) :
    (encodeFields hooks.kinds (first.map quiet ++ loud kind :: rest.map quiet)).length ≤ maxSize := by
  have storable := hooks.storable
  change (hooks.kinds.map least).sum < maxSize at storable
  have one := loud_length kind
  rw [shape, List.map_append, List.sum_append, List.map_cons, List.sum_cons] at storable
  rw [shape, encodeFields_append (List.length_map _).symm, encodeFields_cons, List.length_append, List.length_append,
    encode_quiet_length, encode_quiet_length]
  omega

/-- If some statement reads beyond its reach and is followed by others, there is
an object that a load does not bring back. -/
theorem endAtFixed_of_restores {hooks : Hooks} (restores : Restores hooks) : EndAtFixed hooks.statements := by
  by_contra beyond
  obtain ⟨earlier, statement, later, shape, follows, short, full⟩ := exists_first_beyond beyond
  obtain ⟨blanks, kind, kinds, last, rfl, blank⟩ := exists_first_read follows
  obtain ⟨left, skipped, split⟩ : ∃ left skipped, statement.drop (reach statement) = left :: skipped :=
    ⟨_, _, List.drop_eq_getElem_cons short⟩
  have all : hooks.kinds = earlier.flatten ++ (statement ++ (kind :: (kinds ++ last.flatten))) := by
    simp [Hooks.kinds, shape, List.flatten_eq_nil_iff.mpr blank]
  have whole : statement.take (reach statement) ++ left :: skipped = statement := by
    rw [← split, List.take_append_drop]
  cases kind with
  | fixed width positive bounded =>
    -- that field is loud, and read from where a quiet one stands
    obtain ⟨snapshot, rest, moved, stands, taken⟩ := restores.reads shape full blank (typed_quiet earlier.flatten)
      (typed_quiet statement) (.cons (loud_holds _) (typed_quiet _)) (by
        rw [← List.append_assoc, ← List.map_append]
        exact encode_one_loud hooks (by rw [all, List.append_assoc]))
    rw [← List.map_drop, split, List.map_cons, encodeFields_cons, List.append_assoc] at stands
    exact take_quiet stands taken rfl
  | text =>
    -- the field where the snapshot was left is loud, and this one is empty
    have typed := typed_append (typed_quiet (statement.take (reach statement)))
      (List.Forall₂.cons (loud_holds left) (typed_quiet skipped))
    rw [whole] at typed
    have around : hooks.kinds = (earlier.flatten ++ statement.take (reach statement)) ++
        left :: (skipped ++ .text :: (kinds ++ last.flatten)) := by
      rw [all]
      nth_rewrite 1 [← whole]
      simp
    have fits := encode_one_loud hooks around
    obtain ⟨snapshot, rest, moved, stands, taken⟩ := restores.reads shape full blank (typed_quiet earlier.flatten)
      typed (.cons (quiet_holds .text) (typed_quiet _)) (by simpa using fits)
    have skip : ((statement.take (reach statement)).map quiet).length = reach statement := by
      rw [List.length_map, List.length_take, Nat.min_eq_left (reach_le statement)]
    rw [split, List.drop_left' skip, encodeFields_cons, List.append_assoc] at stands
    exact take_loud stands taken rfl

/-- Whatever is saved, each load brings it back and leaves the snapshot as it is,
exactly if no statement but the last to read chains a read behind one of a
fixed-size type. -/
theorem restores_iff (hooks : Hooks) : Restores hooks ↔ EndAtFixed hooks.statements := by
  constructor
  · exact endAtFixed_of_restores
  · intro ends saved kept snapshot ran changes last
    exact reload_run ends saved (save_returns saved ran) (changes ++ [last])

end Loads

section Misread

attribute [local instance] Platform.littleEndian

theorem int_positive : 0 < (4 : UInt64).toNat := by decide

theorem int_bounded : (4 : UInt64).toNat ≤ maxSize := by decide

/-- The type `int`. -/
def int : Kind := .fixed 4 int_positive int_bounded

/-- `snapshot >> _a >> _b; snapshot >> _c;` -/
def twoStatements : Hooks := ⟨[[int, int], [int]], by decide⟩

/-- Saved with 1, 2 and 3, changed to 7, 8 and 9, and loaded: the last field is
read from where the second one was saved. -/
theorem load_misreads : ∃ snapshot,
    (save twoStatements [[1, 0, 0, 0], [2, 0, 0, 0], [3, 0, 0, 0]]).run ⟨[], .empty⟩ = .ok snapshot ⟨[], .empty⟩ ∧
      (load twoStatements).run ⟨[[7, 0, 0, 0], [8, 0, 0, 0], [9, 0, 0, 0]], snapshot⟩ =
        .ok () ⟨[[1, 0, 0, 0], [2, 0, 0, 0], [2, 0, 0, 0]], snapshot⟩ :=
  ⟨_, rfl, rfl⟩

end Misread
end Memento
end Libftpp
