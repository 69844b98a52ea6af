import Mathlib.Data.List.Forall2
import Libftpp.ThreadSafeIOStream

/-! What a single stream makes of a text that is inserted in pieces and ended with
`std::endl`. Lines that are complete when they are inserted, and the line that
`std::endl` completes, get the prefix. What a piece has after its last newline is
written without it, so the output depends on where the text is cut, unless the
prefix is empty or there is nothing visible behind a newline. -/
namespace Libftpp

namespace ThreadSafeIOStream

/-- What a character on `std::cout` has been written as. -/
inductive Mark where
  | ofPrefix
  | ofText
  deriving DecidableEq

/-- Characters written as the prefix. -/
def asPrefix (chars : List Char) : List (Mark × Char) := chars.map (Prod.mk .ofPrefix)

/-- Characters written as part of the text. -/
def asText (chars : List Char) : List (Mark × Char) := chars.map (Prod.mk .ofText)

/-- What `writeLines` writes, with marks. -/
def markLines (linePrefix text : List Char) : List Char → List (Mark × Char)
  | [] => asText text
  | char :: line =>
    if char = '\n' then asPrefix linePrefix ++ asText text ++ (.ofText, '\n') :: markLines linePrefix [] line
    else markLines linePrefix (text ++ [char]) line

/-- What an insertion writes, with marks. -/
def mark (stream : ThreadSafeIOStream) : Insertion → List (Mark × Char)
  | .text value =>
    if '\n' ∉ stream.buffer ++ value then [] else markLines stream.linePrefix [] (stream.buffer ++ value)
  | .endl => (if stream.buffer ≠ [] then asPrefix stream.linePrefix ++ asText stream.buffer else []) ++ asText ['\n']

/-- What these insertions write, with marks. -/
def marked (stream : ThreadSafeIOStream) : List Insertion → List (Mark × Char)
  | [] => []
  | insertion :: insertions => stream.mark insertion ++ (stream.insert insertion).1.marked insertions

/-- What these insertions write to `std::cout`. -/
def written (stream : ThreadSafeIOStream) : List Insertion → List Char
  | [] => []
  | insertion :: insertions => (stream.insert insertion).2 ++ (stream.insert insertion).1.written insertions

/-- A text in pieces, and `std::endl`. -/
def inPieces (pieces : List (List Char)) : List Insertion := pieces.map Insertion.text ++ [.endl]

/-- The end of a line of the text. A newline in the prefix is none. -/
def endsLine (char : Mark × Char) : Bool := char = (.ofText, '\n')

/-- A line of the text is shown behind the prefix, or is empty and not shown. -/
def LineShown (linePrefix line : List Char) (shown : List (Mark × Char)) : Prop :=
  shown = asPrefix linePrefix ++ asText line ∨ line = [] ∧ shown = []

/-- Line by line, the text that `std::endl` has ended is shown. -/
def Prefixed (linePrefix text : List Char) (shown : List (Mark × Char)) : Prop :=
  List.Forall₂ (LineShown linePrefix) ((text ++ ['\n']).splitOnP (· = '\n')) (shown.splitOnP endsLine)

/-- However the text is cut, the same is written, and every line is shown. -/
def CutsAgree (linePrefix text : List Char) : Prop :=
  (∀ pieces others : List (List Char), pieces.flatten = text → others.flatten = text →
    written ⟨[], linePrefix⟩ (inPieces pieces) = written ⟨[], linePrefix⟩ (inPieces others)) ∧
  ∀ pieces : List (List Char), pieces.flatten = text → Prefixed linePrefix text (marked ⟨[], linePrefix⟩ (inPieces pieces))

/-- The text is one line, and possibly newlines behind it. -/
def OneLine (text : List Char) : Prop :=
  ∀ before after, text = before ++ '\n' :: after → ∀ char ∈ after, char = '\n'

/-! ### Marks -/

@[simp] theorem asPrefix_chars (chars : List Char) : (asPrefix chars).map Prod.snd = chars := by
  rw [asPrefix, List.map_map]
  exact List.map_id _

@[simp] theorem asText_chars (chars : List Char) : (asText chars).map Prod.snd = chars := by
  rw [asText, List.map_map]
  exact List.map_id _

theorem markLines_chars (linePrefix text line : List Char) :
    (markLines linePrefix text line).map Prod.snd = writeLines linePrefix text line := by
  induction line generalizing text with
  | nil => exact asText_chars text
  | cons char line ih =>
    rw [markLines, writeLines]
    split
    · simp [ih]
    · exact ih _

/-- Without the marks, it is what the insertion writes. -/
theorem mark_chars (stream : ThreadSafeIOStream) (insertion : Insertion) :
    (stream.mark insertion).map Prod.snd = (stream.insert insertion).2 := by
  cases insertion with
  | text value =>
    rw [mark, insert, insertText]
    split
    · rfl
    · exact markLines_chars ..
  | endl =>
    rw [mark, insert, insertEndl, flushBuffer]
    by_cases held : stream.buffer ≠ []
    · simp [held]
    · simp [held]

theorem marked_chars (stream : ThreadSafeIOStream) (insertions : List Insertion) :
    (stream.marked insertions).map Prod.snd = stream.written insertions := by
  induction insertions generalizing stream with
  | nil => rfl
  | cons insertion insertions ih => rw [marked, written, List.map_append, mark_chars, ih]

theorem asText_append (first rest : List Char) : asText (first ++ rest) = asText first ++ asText rest := List.map_append

/-! ### The text as it should be shown -/

/-- The prefix before every line, except for the last one if it is empty. -/
def ideal (linePrefix text : List Char) : List Char → List (Mark × Char)
  | [] => (if text ≠ [] then asPrefix linePrefix ++ asText text else []) ++ asText ['\n']
  | char :: line =>
    if char = '\n' then asPrefix linePrefix ++ asText text ++ (.ofText, '\n') :: ideal linePrefix [] line
    else ideal linePrefix (text ++ [char]) line

theorem ideal_unbroken (linePrefix text : List Char) {value : List Char} (rest : List Char) (unbroken : '\n' ∉ value) :
    ideal linePrefix text (value ++ rest) = ideal linePrefix (text ++ value) rest := by
  induction value generalizing text with
  | nil => rw [List.nil_append, List.append_nil]
  | cons char value ih =>
    rw [List.mem_cons, not_or] at unbroken
    rw [List.cons_append, ideal, if_neg (Ne.symm unbroken.1), ih _ unbroken.2, List.append_assoc]
    rfl

/-- Complete lines are shown as they should be. -/
theorem markLines_complete (linePrefix text : List Char) {line : List Char} (rest : List Char)
    (complete : line.getLast? = some '\n' ∨ line = [] ∧ text = []) :
    markLines linePrefix text line ++ ideal linePrefix [] rest = ideal linePrefix text (line ++ rest) := by
  induction line generalizing text with
  | nil =>
    rcases complete with none | ⟨_, rfl⟩
    · cases none
    · rfl
  | cons char line ih =>
    rw [List.cons_append, markLines, ideal]
    split
    · rename_i newline
      have later : line.getLast? = some '\n' ∨ line = [] ∧ ([] : List Char) = [] := by
        rcases List.eq_nil_or_concat line with rfl | ⟨front, last, rfl⟩
        · exact Or.inr ⟨rfl, rfl⟩
        · rcases complete with ends | ⟨none, _⟩
          · rw [List.concat_eq_append, ← List.cons_append, List.getLast?_concat] at ends
            rw [List.concat_eq_append, List.getLast?_concat]
            exact Or.inl ends
          · cases none
      rw [List.append_assoc, List.cons_append, ih [] later]
    · rename_i other
      have later : line.getLast? = some '\n' := by
        rcases complete with ends | ⟨none, _⟩
        · cases line with
          | nil => exact absurd (Option.some.inj ends) other
          | cons next line => rwa [List.getLast?_cons_cons] at ends
        · cases none
      exact ih _ (Or.inl later)

/-- Without a prefix, all there is to show is the text. -/
theorem ideal_bare (text line : List Char) : ideal [] text line = asText (text ++ line ++ ['\n']) := by
  induction line generalizing text with
  | nil =>
    rw [ideal, List.append_nil]
    split
    · rw [asText_append]
      rfl
    · rename_i empty
      rw [not_not.mp empty]
      rfl
  | cons char line ih =>
    rw [ideal]
    split
    · rename_i newline
      rw [ih, newline]
      simp [asPrefix, asText]
    · rw [ih, List.append_assoc text]
      rfl

theorem markLines_bare (text line : List Char) : markLines [] text line = asText (text ++ line) := by
  induction line generalizing text with
  | nil => rw [markLines, List.append_nil]
  | cons char line ih =>
    rw [markLines]
    split
    · rename_i newline
      rw [ih, newline]
      simp [asPrefix, asText]
    · rw [ih, List.append_assoc]
      rfl

/-- The piece has no newline, or ends with one. -/
def Settled (piece : List Char) : Prop := '\n' ∈ piece → piece.getLast? = some '\n'

/-- An insertion that leaves no line open, or one without a prefix, writes what
should be shown by then. -/
theorem mark_piece {linePrefix buffer piece : List Char} (rest : List Char) (held : '\n' ∉ buffer)
    (fine : linePrefix = [] ∨ Settled piece) :
    ∃ buffer', (insertText ⟨buffer, linePrefix⟩ piece).1 = ⟨buffer', linePrefix⟩ ∧ '\n' ∉ buffer' ∧
      mark ⟨buffer, linePrefix⟩ (.text piece) ++ ideal linePrefix buffer' rest =
        ideal linePrefix buffer (piece ++ rest) := by
  by_cases breaks : '\n' ∈ piece
  · have line : '\n' ∈ buffer ++ piece := List.mem_append_right _ breaks
    refine ⟨[], ?_, List.not_mem_nil, ?_⟩
    · simp [insertText, line]
    · rw [mark, if_neg (not_not.mpr line)]
      rcases fine with rfl | settled
      · rw [markLines_bare, ideal_bare, ideal_bare, ← asText_append]
        simp
      · have ends : (buffer ++ piece).getLast? = some '\n' := by
          rw [List.getLast?_append, settled breaks]
          rfl
        rw [markLines_complete _ _ _ (Or.inl ends), List.append_assoc, ideal_unbroken _ _ _ held, List.nil_append]
  · have line : '\n' ∉ buffer ++ piece := fun member => (List.mem_append.mp member).elim held breaks
    refine ⟨buffer ++ piece, ?_, line, ?_⟩
    · simp [insertText, line]
    · rw [mark, if_pos line, ideal_unbroken _ _ _ breaks, List.nil_append]

/-- So the whole output is as it should be. -/
theorem marked_pieces {linePrefix buffer : List Char} {pieces : List (List Char)} (held : '\n' ∉ buffer)
    (fine : linePrefix = [] ∨ ∀ piece ∈ pieces, Settled piece) :
    marked ⟨buffer, linePrefix⟩ (inPieces pieces) = ideal linePrefix buffer pieces.flatten := by
  induction pieces generalizing buffer with
  | nil => exact List.append_nil _
  | cons piece pieces ih =>
    have own : linePrefix = [] ∨ Settled piece := fine.imp_right fun all => all piece (List.mem_cons_self ..)
    have others : linePrefix = [] ∨ ∀ other ∈ pieces, Settled other :=
      fine.imp_right fun all other member => all other (List.mem_cons_of_mem _ member)
    obtain ⟨buffer', state, held', shown⟩ := mark_piece pieces.flatten held own
    rw [inPieces, List.map_cons, List.cons_append, marked, insert, state, List.flatten_cons, ← shown]
    exact congrArg _ (ih held' others)

/-- Then every line is shown. -/
theorem ideal_prefixed (linePrefix : List Char) {text : List Char} (line : List Char) (held : '\n' ∉ text) :
    Prefixed linePrefix (text ++ line) (ideal linePrefix text line) := by
  have quietPrefix (char : Mark × Char) (member : char ∈ asPrefix linePrefix) : endsLine char = false := by
    obtain ⟨_, _, rfl⟩ := List.mem_map.mp member
    rfl
  have quiet {piece : List Char} (unbroken : '\n' ∉ piece) (char : Mark × Char) (member : char ∈ asText piece) :
      endsLine char = false := by
    obtain ⟨letter, inside, rfl⟩ := List.mem_map.mp member
    refine decide_eq_false fun same => unbroken ?_
    cases same
    exact inside
  have unbroken {piece : List Char} (free : '\n' ∉ piece) (char : Char) (member : char ∈ piece) :
      decide (char = '\n') = false := decide_eq_false fun same => free (same ▸ member)
  have full {piece : List Char} (free : '\n' ∉ piece) (char : Mark × Char)
      (member : char ∈ asPrefix linePrefix ++ asText piece) : endsLine char = false :=
    (List.mem_append.mp member).elim (quietPrefix char) (quiet free char)
  induction line generalizing text with
  | nil =>
    unfold Prefixed
    rw [List.append_nil, List.splitOnP_append_cons_of_forall_mem (unbroken held) '\n' (by decide), ideal]
    have ends : endsLine (Mark.ofText, '\n') = true := rfl
    by_cases empty : text = []
    · rw [if_neg (not_not.mpr empty), empty]
      exact .cons (Or.inr ⟨rfl, rfl⟩) (.cons (Or.inr ⟨rfl, rfl⟩) .nil)
    · rw [if_pos empty]
      change List.Forall₂ _ _ ((asPrefix linePrefix ++ asText text ++ (Mark.ofText, '\n') :: []).splitOnP endsLine)
      rw [List.splitOnP_append_cons_of_forall_mem (full held) _ ends]
      exact .cons (Or.inl rfl) (.cons (Or.inr ⟨rfl, rfl⟩) .nil)
  | cons char line ih =>
    rw [ideal]
    split
    · rename_i newline
      have rest := ih List.not_mem_nil
      unfold Prefixed at rest ⊢
      rw [newline, List.append_assoc, List.cons_append,
        List.splitOnP_append_cons_of_forall_mem (unbroken held) '\n' (by decide),
        List.splitOnP_append_cons_of_forall_mem (full held) _ rfl]
      exact .cons (Or.inl rfl) rest
    · rename_i other
      have longer : '\n' ∉ text ++ [char] := fun member =>
        (List.mem_append.mp member).elim held fun last => other (List.mem_singleton.mp last).symm
      have rest := ih longer
      rwa [List.append_assoc] at rest

/-! ### Where a cut shows -/

theorem settled_of_oneLine {pieces : List (List Char)} (oneLine : OneLine pieces.flatten) :
    ∀ piece ∈ pieces, Settled piece := by
  intro piece member breaks
  obtain ⟨before, after, rfl⟩ := List.append_of_mem breaks
  obtain ⟨earlier, later, rfl⟩ := List.append_of_mem member
  rcases List.eq_nil_or_concat after with rfl | ⟨front, last, rfl⟩
  · exact List.getLast?_concat
  · have newline := oneLine (earlier.flatten ++ before) (front ++ [last] ++ later.flatten) (by simp) last (by simp)
    rw [newline, List.concat_eq_append, ← List.cons_append, ← List.append_assoc, List.getLast?_concat]

/-- Where the text has more than one line, a visible character stands right
behind a newline. -/
theorem exists_line_start {text : List Char} (more : ¬ OneLine text) :
    ∃ before char after, text = before ++ '\n' :: char :: after ∧ char ≠ '\n' := by
  simp only [OneLine, not_forall] at more
  obtain ⟨before, after, rfl, char, member, visible⟩ := more
  induction after generalizing before with
  | nil => cases member
  | cons next after ih =>
    by_cases newline : next = '\n'
    · subst newline
      have later := (List.mem_cons.mp member).resolve_left visible
      obtain ⟨before', char', after', shape, visible'⟩ := ih (before ++ ['\n']) later
      refine ⟨before', char', after', ?_, visible'⟩
      rw [← shape, List.append_assoc]
      rfl
    · exact ⟨before, next, after, rfl, newline⟩

/-- Every line of the output shows some line of the text. -/
theorem Prefixed.shows {linePrefix text : List Char} {shown line : List (Mark × Char)}
    (prefixed : Prefixed linePrefix text shown) (member : line ∈ shown.splitOnP endsLine) :
    ∃ source, LineShown linePrefix source line := by
  unfold Prefixed at prefixed
  generalize (text ++ ['\n']).splitOnP (· = '\n') = sources at prefixed
  generalize shown.splitOnP endsLine = lines at prefixed member
  induction prefixed with
  | nil => cases member
  | cons first _ ih =>
    rcases List.mem_cons.mp member with rfl | later
    · exact ⟨_, first⟩
    · exact ih later

/-- A line of the output does not begin with a visible character of the text. -/
theorem prefix_before_text {linePrefix text : List Char} {before shown : List (Mark × Char)} {char : Char} (present : linePrefix ≠ [])
    (prefixed : Prefixed linePrefix text (before ++ (.ofText, '\n') :: (.ofText, char) :: shown)) : char = '\n' := by
  by_contra visible
  have inside : endsLine (.ofText, char) = false := decide_eq_false fun same => visible (congrArg Prod.snd same)
  have ends : endsLine (.ofText, '\n') = true := rfl
  obtain ⟨line, lines, split⟩ := List.exists_cons_of_ne_nil (List.splitOnP_ne_nil endsLine shown)
  have member : (Mark.ofText, char) :: line ∈
      (before ++ (Mark.ofText, '\n') :: (Mark.ofText, char) :: shown).splitOnP endsLine := by
    rw [List.splitOnP_append_cons before _ ends, List.splitOnP_cons_eq_if_modifyHead (Mark.ofText, char), inside, split]
    exact List.mem_append_right _ (List.mem_cons_self ..)
  obtain ⟨first, rest, shape⟩ := List.exists_cons_of_ne_nil present
  obtain ⟨source, same | ⟨_, none⟩⟩ := prefixed.shows member
  · rw [shape] at same
    exact Mark.noConfusion (congrArg Prod.fst (List.cons.inj same).1)
  · cases none

/-- Cut behind a newline and one visible character, the text is written without
the prefix there. -/
theorem not_prefixed_of_cut {linePrefix text before after : List Char} {char : Char} (present : linePrefix ≠ []) (visible : char ≠ '\n') :
    ¬ Prefixed linePrefix text (marked ⟨[], linePrefix⟩ (inPieces [before ++ ['\n', char], after])) := by
  have spills (held : List Char) : ∃ front, markLines linePrefix held (before ++ ['\n', char]) =
      front ++ [(.ofText, '\n'), (.ofText, char)] := by
    induction before generalizing held with
    | nil => exact ⟨asPrefix linePrefix ++ asText held, by simp [markLines, visible, asText]⟩
    | cons next before ih =>
      rw [List.cons_append, markLines]
      split
      · obtain ⟨front, shape⟩ := ih []
        exact ⟨asPrefix linePrefix ++ asText held ++ (.ofText, '\n') :: front, by rw [shape]; simp⟩
      · exact ih _
  obtain ⟨front, shape⟩ := spills []
  have breaks : '\n' ∈ [] ++ (before ++ ['\n', char]) := by simp
  intro prefixed
  rw [inPieces, List.map_cons, List.cons_append, marked, mark, if_neg (not_not.mpr breaks), List.nil_append, shape,
    List.append_assoc] at prefixed
  exact visible (prefix_before_text present prefixed)

/-- All cuts of a text agree exactly if the prefix is empty or nothing visible
stands behind a newline. -/
theorem cuts_agree_iff (linePrefix text : List Char) : CutsAgree linePrefix text ↔ linePrefix = [] ∨ OneLine text := by
  constructor
  · rintro ⟨_, prefixed⟩
    by_contra neither
    rw [not_or] at neither
    obtain ⟨before, char, after, rfl, visible⟩ := exists_line_start neither.2
    exact not_prefixed_of_cut neither.1 visible (prefixed [before ++ ['\n', char], after] (by simp))
  · intro fine
    have settled {pieces : List (List Char)} (whole : pieces.flatten = text) :
        marked ⟨[], linePrefix⟩ (inPieces pieces) = ideal linePrefix [] text := by
      rw [← whole]
      exact marked_pieces List.not_mem_nil (fine.imp_right fun oneLine => settled_of_oneLine (whole ▸ oneLine))
    constructor
    · intro pieces others one other
      rw [← marked_chars, ← marked_chars, settled one, settled other]
    · intro pieces whole
      rw [settled whole]
      exact ideal_prefixed linePrefix text List.not_mem_nil

/-- `"a\nb"` in one piece and in two: the second line has its prefix only if the
text is cut before it. -/
theorem cut_shows_behind_newline :
    written ⟨[], "[T] ".toList⟩ (inPieces ["a\nb".toList]) = "[T] a\nb\n".toList ∧
      written ⟨[], "[T] ".toList⟩ (inPieces ["a\n".toList, "b".toList]) = "[T] a\n[T] b\n".toList ∧
      ¬ ∀ linePrefix text, CutsAgree linePrefix text := by
  refine ⟨by decide, by decide, ?_⟩
  intro agree
  have same := (agree "[T] ".toList "a\nb".toList).1 ["a\nb".toList] ["a\n".toList, "b".toList] rfl rfl
  exact absurd same (by decide)

end ThreadSafeIOStream
end Libftpp
