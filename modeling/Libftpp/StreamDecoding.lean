import Mathlib.Data.List.Basic

/-! Self-delimiting records on a byte stream. A codec says how one record is
written and how one is taken off the front of what has arrived; the two are
inverse, so a stream has only one reading. Draining takes every record that is
complete, and draining piece by piece is draining the whole. -/
namespace Libftpp.StreamDecoding

/-- Records `α` written as nonempty strings over `β`. Taking a record off the
front succeeds exactly on the strings that start with a written one. -/
structure Codec (β α : Type) where
  encode : α → List β
  next : List β → Option (α × List β)
  nonempty : ∀ record, encode record ≠ []
  next_iff : ∀ {bytes record rest}, next bytes = some (record, rest) ↔ bytes = encode record ++ rest

namespace Codec
variable {β α : Type} (codec : Codec β α)

/-- The records of a list, written one after the other. -/
def encodeAll (records : List α) : List β := records.flatMap codec.encode

@[simp] theorem encodeAll_nil : codec.encodeAll [] = [] := rfl

@[simp] theorem encodeAll_cons (record : α) (records : List α) :
    codec.encodeAll (record :: records) = codec.encode record ++ codec.encodeAll records := by
  simp [encodeAll]

@[simp] theorem encodeAll_append (first second : List α) :
    codec.encodeAll (first ++ second) = codec.encodeAll first ++ codec.encodeAll second := by
  simp [encodeAll]

theorem encode_length_pos (record : α) : 0 < (codec.encode record).length :=
  List.length_pos_of_ne_nil (codec.nonempty record)

/-- What has been taken off does not depend on what arrives later. -/
theorem next_append (taken : codec.next bytes = some (record, rest)) (more : List β) :
    codec.next (bytes ++ more) = some (record, rest ++ more) := by
  rw [codec.next_iff] at taken ⊢
  rw [taken, List.append_assoc]

theorem next_encode (record : α) (rest : List β) :
    codec.next (codec.encode record ++ rest) = some (record, rest) :=
  codec.next_iff.mpr rfl

theorem next_shrinks (taken : codec.next bytes = some (record, rest)) :
    rest.length < bytes.length := by
  have positive := codec.encode_length_pos record
  rw [codec.next_iff.mp taken, List.length_append]
  omega

/-- No record can be taken off an empty input. -/
theorem next_nil : codec.next [] = none := by
  cases taken : codec.next [] with
  | none => rfl
  | some step => exact absurd (codec.next_shrinks taken) (Nat.not_lt_zero _)

/-- A record of which something is still missing is not taken off. -/
theorem next_partial (split : codec.encode record = front ++ missing) (more : missing ≠ []) :
    codec.next front = none := by
  cases taken : codec.next front with
  | none => rfl
  | some step =>
    obtain ⟨other, rest⟩ := step
    have whole := codec.next_append taken missing
    rw [← split] at whole
    have alone := codec.next_encode record []
    rw [List.append_nil] at alone
    rw [alone] at whole
    have nothing : rest ++ missing = [] := by simpa using (congrArg Prod.snd (Option.some.inj whole)).symm
    exact absurd (List.append_eq_nil_iff.mp nothing).2 more

/-- Two written sequences that start alike share their leading records: a
stream can be read in one way only. -/
theorem encodeAll_prefix (first records : List α) (rest : List β)
    (same : codec.encodeAll first ++ rest = codec.encodeAll records) :
    ∃ later, records = first ++ later ∧ rest = codec.encodeAll later := by
  induction first generalizing records with
  | nil => exact ⟨records, rfl, by simpa using same⟩
  | cons record first ih =>
    have front := codec.next_encode record (codec.encodeAll first ++ rest)
    rw [← List.append_assoc, ← codec.encodeAll_cons, same] at front
    cases records with
    | nil => rw [codec.encodeAll_nil, codec.next_nil] at front; cases front
    | cons other records =>
      rw [codec.encodeAll_cons, codec.next_encode] at front
      simp only [Option.some.injEq, Prod.mk.injEq] at front
      obtain ⟨rfl, tails⟩ := front
      obtain ⟨later, rfl, tail⟩ := ih records tails.symm
      exact ⟨later, rfl, tail⟩

/-- A sequence that breaks off inside a record is no written sequence. -/
theorem encodeAll_ne_of_cut (split : codec.encode record = front ++ missing) (begun : front ≠ [])
    (more : missing ≠ []) (first others : List α) : codec.encodeAll first ++ front ≠ codec.encodeAll others := by
  intro same
  obtain ⟨later, _, tail⟩ := codec.encodeAll_prefix _ _ _ same
  have stuck := codec.next_partial split more
  cases later with
  | nil => exact begun tail
  | cons other later =>
    rw [tail, codec.encodeAll_cons, codec.next_encode] at stuck
    cases stuck

/-- Takes records off the front until the next one is not complete. -/
def drain (bytes : List β) : List α × List β :=
  match _taken : codec.next bytes with
  | none => ([], bytes)
  | some (record, rest) => (record :: (drain rest).1, (drain rest).2)
termination_by bytes.length
decreasing_by all_goals exact codec.next_shrinks _taken

theorem drain_stuck (stuck : codec.next bytes = none) : codec.drain bytes = ([], bytes) := by
  rw [drain.eq_def]
  split
  · rfl
  · rename_i taken
    rw [stuck] at taken
    cases taken

theorem drain_next (taken : codec.next bytes = some (record, rest)) :
    codec.drain bytes = (record :: (codec.drain rest).1, (codec.drain rest).2) := by
  rw [drain.eq_def]
  split
  · rename_i stuck
    rw [taken] at stuck
    cases stuck
  · rename_i other tail again
    rw [taken] at again
    cases again
    rfl

/-- Draining loses nothing and stops only at an incomplete record. -/
theorem drain_spec (bytes : List β) :
    bytes = codec.encodeAll (codec.drain bytes).1 ++ (codec.drain bytes).2 ∧
      codec.next (codec.drain bytes).2 = none := by
  induction bytes using drain.induct codec with
  | case1 bytes stuck => simp [codec.drain_stuck stuck, stuck]
  | case2 bytes record rest taken ih =>
    rw [codec.drain_next taken]
    refine ⟨?_, ih.2⟩
    rw [codec.encodeAll_cons, List.append_assoc, ← ih.1]
    exact codec.next_iff.mp taken

/-- Complete records in front are taken off whatever follows them. -/
theorem drain_encodeAll_append (records : List α) (tail : List β) :
    codec.drain (codec.encodeAll records ++ tail) =
      (records ++ (codec.drain tail).1, (codec.drain tail).2) := by
  induction records with
  | nil => rfl
  | cons record records ih =>
    have taken := codec.next_encode record (codec.encodeAll records ++ tail)
    rw [codec.encodeAll_cons, List.append_assoc, codec.drain_next taken, ih]
    rfl

/-- Only one way of splitting off complete records leaves an incomplete one. -/
theorem drain_eq (whole : bytes = codec.encodeAll records ++ rest) (stuck : codec.next rest = none) :
    codec.drain bytes = (records, rest) := by
  rw [whole, drain_encodeAll_append, codec.drain_stuck stuck, List.append_nil]

/-- Draining in two pieces is draining the whole. -/
theorem drain_append (first second : List β) :
    codec.drain (first ++ second) =
      ((codec.drain first).1 ++ (codec.drain ((codec.drain first).2 ++ second)).1,
        (codec.drain ((codec.drain first).2 ++ second)).2) := by
  conv => lhs; rw [(codec.drain_spec first).1, List.append_assoc, drain_encodeAll_append]

/-- Of a written sequence, what has arrived so far drains to its leading
records, and what is left over is a part of the next one. -/
theorem drain_arrived (records : List α) (arrived later : List β)
    (stream : arrived ++ later = codec.encodeAll records) :
    ∃ missing, records = (codec.drain arrived).1 ++ missing ∧
      (codec.drain arrived).2 ++ later = codec.encodeAll missing ∧
      ∀ record ∈ missing.head?, (codec.drain arrived).2.length < (codec.encode record).length := by
  obtain ⟨whole, stuck⟩ := codec.drain_spec arrived
  generalize codec.drain arrived = drained at whole stuck
  rw [whole, List.append_assoc] at stream
  obtain ⟨missing, rfl, tail⟩ := codec.encodeAll_prefix _ _ _ stream
  refine ⟨missing, rfl, tail, ?_⟩
  intro record head
  obtain ⟨others, rfl⟩ : ∃ others, missing = record :: others :=
    ⟨missing.tail, (List.cons_head?_tail head).symm⟩
  by_contra longer
  -- A leftover this long would begin with the whole next record.
  have begins : codec.encode record <+: drained.2 := by
    apply List.prefix_of_prefix_length_le _ (List.prefix_append _ later) (Nat.le_of_not_lt longer)
    rw [tail, codec.encodeAll_cons]
    exact List.prefix_append _ _
  obtain ⟨surplus, shape⟩ := begins
  rw [← shape, codec.next_encode] at stuck
  cases stuck

/-- A record has been taken off exactly when all bytes up to its end have arrived. -/
theorem drain_length_iff (arrived later : List β) (stream : arrived ++ later = codec.encodeAll records)
    (inside : index < records.length) :
    index < (codec.drain arrived).1.length ↔
      (codec.encodeAll (records.take (index + 1))).length ≤ arrived.length := by
  obtain ⟨missing, split, _, partly⟩ := codec.drain_arrived records arrived later stream
  have whole := congrArg List.length (codec.drain_spec arrived).1
  rw [List.length_append] at whole
  generalize codec.drain arrived = drained at split partly whole
  subst split
  constructor
  · intro taken
    have reached : index + 1 ≤ drained.1.length := taken
    rw [List.take_append_of_le_length reached]
    have part : codec.encodeAll drained.1 =
        codec.encodeAll (drained.1.take (index + 1)) ++ codec.encodeAll (drained.1.drop (index + 1)) := by
      rw [← codec.encodeAll_append, List.take_append_drop]
    rw [part, List.length_append] at whole
    omega
  · intro fits
    by_contra waiting
    cases missing with
    | nil =>
      rw [List.append_nil] at inside
      exact waiting inside
    | cons record others =>
      have short := partly record rfl
      have reached : index + 1 - drained.1.length = index - drained.1.length + 1 := by omega
      rw [List.take_append, List.take_of_length_le (by omega), reached, List.take_succ_cons,
        codec.encodeAll_append, codec.encodeAll_cons, List.length_append, List.length_append] at fits
      omega

end Codec
end Libftpp.StreamDecoding
