import Mathlib.Data.List.Rotate
import Mathlib.Data.Nat.ModEq

/-! First in, first out, with room for so many items. A queue is a list of items
that fits, and it may be kept in a cyclic array of cells: the items then lie in
the cells from some start on, going round at the end. -/
namespace Libftpp

/-- A queue of at most this many items. -/
@[ext] structure BoundedQueue (α : Type) (capacity : Nat) where
  items : List α
  fits : items.length ≤ capacity

namespace BoundedQueue
variable {α : Type} {capacity : Nat}

def empty : BoundedQueue α capacity := ⟨[], Nat.zero_le _⟩

/-- Puts all of these at the back, or nothing. -/
def append (queue : BoundedQueue α capacity) (new : List α) : Option (BoundedQueue α capacity) :=
  if fits : (queue.items ++ new).length ≤ capacity then some ⟨queue.items ++ new, fits⟩ else none

/-- The items left without the first so many. -/
def drop (queue : BoundedQueue α capacity) (count : Nat) : BoundedQueue α capacity where
  items := queue.items.drop count
  fits := by
    rw [List.length_drop]
    exact (Nat.sub_le ..).trans queue.fits

/-- The first so many items, if there are as many. -/
def front (queue : BoundedQueue α capacity) (count : Nat) : Option (List α) :=
  if count ≤ queue.items.length then some (queue.items.take count) else none

/-- Takes the first so many items out, if there are as many. -/
def remove (queue : BoundedQueue α capacity) (count : Nat) : Option (List α × BoundedQueue α capacity) :=
  (queue.front count).map fun items => (items, queue.drop count)

theorem append_fits {queue : BoundedQueue α capacity} {new : List α}
    (fits : queue.items.length + new.length ≤ capacity) :
    queue.append new = some ⟨queue.items ++ new, by rwa [List.length_append]⟩ := by
  rw [append, dif_pos (by rwa [List.length_append])]

theorem append_overfull {queue : BoundedQueue α capacity} {new : List α}
    (overfull : capacity < queue.items.length + new.length) : queue.append new = none := by
  rw [append, dif_neg (by rw [List.length_append]; omega)]

theorem front_enough {queue : BoundedQueue α capacity} {count : Nat} (enough : count ≤ queue.items.length) :
    queue.front count = some (queue.items.take count) := if_pos enough

theorem front_short {queue : BoundedQueue α capacity} {count : Nat} (short : queue.items.length < count) :
    queue.front count = none := if_neg (by omega)

/-! ### Cells in a circle -/

/-- So many cells from this one on, going round at the end. -/
def window (cells : List α) (start count : Nat) : List α := (cells.rotate start).take count

@[simp] theorem window_zero (cells : List α) (start : Nat) : window cells start 0 = [] := List.take_zero

theorem window_mod (cells : List α) (start count : Nat) :
    window cells (start % cells.length) count = window cells start count := by
  rw [window, List.rotate_mod, window]

/-- Writing a cell, seen from another start. -/
theorem rotate_set {cells : List α} (inside : place < cells.length) (start : Nat) (item : α) :
    (cells.set ((start + place) % cells.length) item).rotate start = (cells.rotate start).set place item := by
  apply List.ext_getElem
  · simp
  intro other bound _
  have narrow : other < cells.length := by simpa using bound
  rw [List.getElem_rotate, List.getElem_set, List.getElem_set, List.getElem_rotate]
  by_cases same : place = other
  · subst same
    simp [Nat.add_comm]
  · have apart : (start + place) % cells.length ≠ (other + start) % (cells.set ((start + place) % cells.length) item).length := by
      rw [List.length_set, Nat.add_comm other]
      intro collide
      have congruent : Nat.ModEq cells.length place other := Nat.ModEq.add_left_cancel' start collide
      exact same (congruent.eq_of_lt_of_lt inside narrow)
    rw [if_neg apart, if_neg same]
    simp

/-- Writing the cell behind a window makes the window longer by that item. -/
theorem window_push {cells : List α} (room : count < cells.length) (start : Nat) (item : α) :
    window (cells.set ((start + count) % cells.length) item) start (count + 1) =
      window cells start count ++ [item] := by
  have inside : count < (cells.rotate start).length := by rwa [List.length_rotate]
  rw [window, rotate_set room, window, List.take_succ_eq_append_getElem (by rwa [List.length_set]),
    List.take_set_of_le (Nat.le_refl _), List.getElem_set_self]

/-- A window begins with the cell it starts at. -/
theorem window_pop {cells : List α} (inside : start < cells.length) (room : count < cells.length) :
    window cells start (count + 1) = cells[start] :: window cells ((start + 1) % cells.length) count := by
  rw [window_mod]
  obtain ⟨first, rest, shape⟩ := List.exists_cons_of_length_pos
    (show 0 < (cells.rotate start).length by rw [List.length_rotate]; omega)
  have head : first = cells[start] := by
    have entry : (cells.rotate start)[0]? = cells[(0 + start) % cells.length]? := List.getElem?_rotate (by omega)
    rw [shape, Nat.zero_add, Nat.mod_eq_of_lt inside, List.getElem?_eq_getElem inside] at entry
    exact Option.some.inj entry
  have size : count ≤ rest.length := by
    have length := congrArg List.length shape
    rw [List.length_rotate, List.length_cons] at length
    omega
  rw [window, window, ← List.rotate_rotate, shape, List.take_succ_cons, head, List.rotate_cons_succ,
    List.rotate_zero, List.take_append_of_le_length size]

end BoundedQueue
end Libftpp
