import Mathlib.Data.List.Basic

/-! The lines of a text, which is a list whose elements may be ends of lines. A
line is a stretch without an end in it that cannot be made longer, so what holds
of the elements of each line holds of every such stretch. -/
namespace Libftpp.Lines
variable {α : Type} {isEnd : α → Bool} {text line stretch : List α}

/-- No line ends here. -/
def Unbroken (isEnd : α → Bool) (stretch : List α) : Prop := ∀ element ∈ stretch, isEnd element = false

theorem Unbroken.append {first rest : List α} (one : Unbroken isEnd first) (other : Unbroken isEnd rest) :
    Unbroken isEnd (first ++ rest) := by
  intro element member
  rcases List.mem_append.mp member with before | after
  · exact one element before
  · exact other element after

theorem Unbroken.part (unbroken : Unbroken isEnd text) (part : stretch <:+: text) : Unbroken isEnd stretch :=
  fun element member => unbroken element (part.subset member)

theorem unbroken_or_first (isEnd : α → Bool) (text : List α) :
    Unbroken isEnd text ∨
      ∃ before stop after, text = before ++ stop :: after ∧ isEnd stop = true ∧ Unbroken isEnd before := by
  induction text with
  | nil => exact Or.inl nofun
  | cons element text ih =>
    cases ends : isEnd element with
    | true => exact Or.inr ⟨[], element, text, rfl, ends, nofun⟩
    | false =>
      have single : Unbroken isEnd [element] := fun other member => by rwa [List.mem_singleton.mp member]
      rcases ih with unbroken | ⟨before, stop, after, rfl, stops, unbroken⟩
      · exact Or.inl (single.append unbroken)
      · exact Or.inr ⟨element :: before, stop, after, rfl, stops, single.append unbroken⟩

theorem unbroken_or_last (isEnd : α → Bool) (text : List α) :
    Unbroken isEnd text ∨
      ∃ before stop after, text = before ++ stop :: after ∧ isEnd stop = true ∧ Unbroken isEnd after := by
  induction text with
  | nil => exact Or.inl nofun
  | cons element text ih =>
    rcases ih with unbroken | ⟨before, stop, after, rfl, stops, unbroken⟩
    · cases ends : isEnd element with
      | true => exact Or.inr ⟨[], element, text, rfl, ends, unbroken⟩
      | false =>
        have single : Unbroken isEnd [element] := fun other member => by rwa [List.mem_singleton.mp member]
        exact Or.inl (single.append unbroken)
    · exact Or.inr ⟨element :: before, stop, after, rfl, stops, unbroken⟩

/-- A line is a stretch of the text without an end. -/
theorem of_mem_lines (isEnd : α → Bool) (text : List α) (member : line ∈ text.splitOnP isEnd) :
    line <:+: text ∧ Unbroken isEnd line := by
  rcases unbroken_or_first isEnd text with unbroken | ⟨before, stop, after, rfl, stops, unbroken⟩
  · rw [List.splitOnP_eq_singleton unbroken, List.mem_singleton] at member
    rw [member]
    exact ⟨List.infix_rfl, unbroken⟩
  · rw [List.splitOnP_append_cons_of_forall_mem unbroken stop stops] at member
    rcases List.mem_cons.mp member with rfl | later
    · exact ⟨List.infix_append_left, unbroken⟩
    · obtain ⟨inside, free⟩ := of_mem_lines isEnd after later
      exact ⟨(List.infix_cons inside).trans List.infix_append_right, free⟩
  termination_by text.length

/-- A stretch without an end lies in a line. -/
theorem exists_line (inside : stretch <:+: text) (unbroken : Unbroken isEnd stretch) :
    ∃ line ∈ text.splitOnP isEnd, stretch <:+: line := by
  obtain ⟨before, after, rfl⟩ := inside
  -- The line begins after the last end before the stretch, and stops at the first one behind it.
  have rear (front : List α) (free : Unbroken isEnd (front ++ stretch)) :
      ∃ line ∈ (front ++ stretch ++ after).splitOnP isEnd, stretch <:+: line := by
    rcases unbroken_or_first isEnd after with last | ⟨middle, stop, rest, rfl, stops, last⟩
    · rw [List.splitOnP_eq_singleton (free.append last)]
      exact ⟨_, List.mem_singleton.mpr rfl, List.infix_append ..⟩
    · rw [← List.append_assoc, List.splitOnP_append_cons_of_forall_mem (free.append last) stop stops]
      exact ⟨_, List.mem_cons_self .., List.infix_append ..⟩
  rcases unbroken_or_last isEnd before with free | ⟨first, stop, front, rfl, stops, free⟩
  · exact rear before (free.append unbroken)
  · obtain ⟨line, member, inside⟩ := rear front (free.append unbroken)
    have split : first ++ stop :: front ++ stretch ++ after = first ++ stop :: (front ++ stretch ++ after) := by
      simp
    rw [split, List.splitOnP_append_cons _ _ stops]
    exact ⟨line, List.mem_append_right _ member, inside⟩

/-- Two elements of one line are related as any two are that no end lies between. -/
theorem lines_iff_stretches {related : α → α → Prop} :
    (∀ line ∈ text.splitOnP isEnd, ∀ first ∈ line, ∀ second ∈ line, related first second) ↔
      ∀ stretch, stretch <:+: text → Unbroken isEnd stretch →
        ∀ first ∈ stretch, ∀ second ∈ stretch, related first second := by
  constructor
  · intro holds stretch inside unbroken first one second other
    obtain ⟨line, member, part⟩ := exists_line inside unbroken
    exact holds line member first (part.subset one) second (part.subset other)
  · intro holds line member
    obtain ⟨inside, unbroken⟩ := of_mem_lines isEnd text member
    exact holds line inside unbroken

end Libftpp.Lines
