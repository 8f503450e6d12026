import FormatLint.Text.Blank
import Mathlib.Data.List.DropRight

/-!
Lines of a text and the blanks around them. A text is taken apart from its front: what stands
before the first line feed is its first line, and `line_induction` follows the lines to the end.
-/

namespace FormatLint.Text

theorem splitOn_ne_nil (p : Char → Bool) (cs : List Char) : splitOn p cs ≠ [] := by
  cases cs with
  | nil => simp [splitOn]
  | cons c cs =>
    rw [splitOn]
    split
    · simp
    · split <;> simp

theorem splitOn_plain {p : Char → Bool} {part : List Char} (plain : ∀ c ∈ part, p c = false) :
    splitOn p part = [part] := by
  induction part with
  | nil => rfl
  | cons c part ih =>
    rw [List.forall_mem_cons] at plain
    rw [splitOn, plain.1, ih plain.2]
    rfl

theorem splitOn_append {p : Char → Bool} {part : List Char} (plain : ∀ c ∈ part, p c = false)
    {c : Char} (divides : p c = true) (rest : List Char) :
    splitOn p (part ++ c :: rest) = part :: splitOn p rest := by
  induction part with
  | nil => simp [splitOn, divides]
  | cons d part ih =>
    rw [List.forall_mem_cons] at plain
    rw [List.cons_append, splitOn, plain.1, ih plain.2]
    rfl

/-- A text is taken apart at the characters that divide it. -/
theorem splitOn_induction {p : Char → Bool} {motive : List Char → Prop}
    (last : ∀ part, (∀ c ∈ part, p c = false) → motive part)
    (divided : ∀ part c rest, (∀ d ∈ part, p d = false) → p c = true → motive rest →
      motive (part ++ c :: rest))
    (text : List Char) : motive text := by
  induction size : text.length using Nat.strongRecOn generalizing text with | _ n ih
  cases first : text.find? p with
  | none => exact last text (by simpa using first)
  | some c =>
    obtain ⟨divides, part, rest, rfl, plain⟩ := List.find?_eq_some_iff_append.mp first
    refine divided part c rest (by simpa using plain) divides ?_
    exact ih rest.length (by simp at size; omega) rest rfl

theorem no_feed {line : List Char} (whole : '\n' ∉ line) : ∀ c ∈ line, (c == '\n') = false := by
  intro c inside
  rw [beq_eq_false_iff_ne]
  intro same
  exact whole (same ▸ inside)

@[simp] theorem lines_nil : lines [] = [] := rfl

theorem lines_last {line : List Char} (whole : '\n' ∉ line) (filled : line ≠ []) :
    lines line = [line] := by
  rw [lines, splitOn_plain (no_feed whole)]
  simp [filled]

theorem lines_feed {line : List Char} (whole : '\n' ∉ line) (rest : List Char) :
    lines (line ++ '\n' :: rest) = dropReturn line :: lines rest := by
  obtain ⟨part, parts, shape⟩ := List.exists_cons_of_ne_nil (splitOn_ne_nil (· == '\n') rest)
  rw [lines, splitOn_append (no_feed whole) (by rfl), lines, shape]
  simp [List.dropLast_cons_of_ne_nil, List.getLast?_cons_cons]

/-- A text is empty, one last line, or a line with its line feed and more text. -/
theorem line_induction {motive : List Char → Prop} (nil : motive [])
    (last : ∀ line, '\n' ∉ line → line ≠ [] → motive line)
    (feed : ∀ line rest, '\n' ∉ line → motive rest → motive (line ++ '\n' :: rest))
    (text : List Char) : motive text := by
  induction size : text.length using Nat.strongRecOn generalizing text with | _ n ih
  by_cases whole : '\n' ∈ text
  · obtain ⟨line, rest, rfl, before⟩ := List.eq_append_cons_of_mem whole
    exact feed line rest before (ih rest.length (by simp at size; omega) rest rfl)
  · by_cases empty : text = []
    · exact empty ▸ nil
    · exact last text whole empty

/-- The lines of a text with the line feeds that end them. -/
def wholeLines : List Char → List (List Char)
  | [] => []
  | c :: cs =>
    if c = '\n' then [c] :: wholeLines cs
    else
      match wholeLines cs with
      | [] => [[c]]
      | line :: rest => (c :: line) :: rest

theorem wholeLines_last {line : List Char} (whole : '\n' ∉ line) (filled : line ≠ []) :
    wholeLines line = [line] := by
  induction line with
  | nil => exact absurd rfl filled
  | cons c line ih =>
    rw [List.mem_cons, not_or] at whole
    rw [wholeLines, if_neg (Ne.symm whole.1)]
    by_cases single : line = []
    · subst single
      rfl
    · rw [ih whole.2 single]

theorem wholeLines_feed {line : List Char} (whole : '\n' ∉ line) (rest : List Char) :
    wholeLines (line ++ '\n' :: rest) = (line ++ ['\n']) :: wholeLines rest := by
  induction line with
  | nil => simp [wholeLines]
  | cons c line ih =>
    rw [List.mem_cons, not_or] at whole
    rw [List.cons_append, wholeLines, if_neg (Ne.symm whole.1), ih whole.2]
    rfl

/-- Nothing is lost: the whole lines are the text. -/
theorem flatten_wholeLines (text : List Char) : (wholeLines text).flatten = text := by
  induction text using line_induction with
  | nil => rfl
  | last line whole filled => simp [wholeLines_last whole filled]
  | feed line rest whole ih => simp [wholeLines_feed whole, ih]

/-- Trimming takes away blanks at the end only. -/
theorem trimEnd_prefix (line : List Char) : trimEnd line <+: line :=
  List.rdropWhile_prefix isBlank line

theorem trimEnd_eq_nil {line : List Char} : trimEnd line = [] ↔ ∀ c ∈ line, isBlank c = true :=
  List.rdropWhile_eq_nil_iff

theorem trimEnd_append_blank (line : List Char) {c : Char} (blank : isBlank c = true) :
    trimEnd (line ++ [c]) = trimEnd line := List.rdropWhile_concat_pos isBlank line c blank

theorem trimEnd_solid {line : List Char} (solid : ∀ c, line.getLast? = some c → isBlank c = false) :
    trimEnd line = line := by
  refine List.rdropWhile_eq_self_iff.mpr fun filled => ?_
  simpa using solid _ (List.getLast?_eq_some_getLast filled)

theorem trimEnd_cons {c : Char} (solid : isBlank c = false) (line : List Char) :
    trimEnd (c :: line) = c :: trimEnd line := by
  unfold trimEnd
  rw [List.reverse_cons, List.dropWhile_append]
  split
  · rename_i empty
    rw [List.isEmpty_iff.mp empty]
    simp [solid]
  · simp

theorem trimStart_padded {before : List Char} (blank : ∀ c ∈ before, isBlank c = true)
    (line : List Char) : trimStart (before ++ line) = trimStart line :=
  List.dropWhile_append_of_pos blank

theorem trimStart_solid {line : List Char}
    (solid : ∀ c, line.head? = some c → isBlank c = false) : trimStart line = line := by
  cases line with
  | nil => rfl
  | cons c line => exact List.dropWhile_cons_of_neg (by simp [solid c rfl])

theorem trimEnd_padded {after : List Char} (blank : ∀ c ∈ after, isBlank c = true)
    (line : List Char) : trimEnd (line ++ after) = trimEnd line := by
  unfold trimEnd
  rw [List.reverse_append, List.dropWhile_append_of_pos (by simpa using blank)]

theorem trim_blank {line : List Char} (blank : ∀ c ∈ line, isBlank c = true) : trim line = [] := by
  have nothing : trimStart line = [] := List.dropWhile_eq_nil_iff.mpr blank
  rw [trim, nothing]
  rfl

/-- Trimming gives back what has no blank at its ends, whatever blanks are put around it. -/
theorem trim_padded {before line after : List Char} (blankBefore : ∀ c ∈ before, isBlank c = true)
    (blankAfter : ∀ c ∈ after, isBlank c = true)
    (front : ∀ c, line.head? = some c → isBlank c = false)
    (back : ∀ c, line.getLast? = some c → isBlank c = false) :
    trim (before ++ line ++ after) = line := by
  by_cases empty : line = []
  · have blanks : ∀ c ∈ before ++ after, isBlank c = true := by
      intro c inside
      exact (List.mem_append.mp inside).elim (blankBefore c) (blankAfter c)
    rw [empty, List.append_nil, trim_blank blanks]
  · have solid : ∀ c, (line ++ after).head? = some c → isBlank c = false := by
      intro c first
      rw [List.head?_append_of_ne_nil _ empty] at first
      exact front c first
    rw [trim, List.append_assoc, trimStart_padded blankBefore, trimStart_solid solid,
      trimEnd_padded blankAfter, trimEnd_solid back]

theorem trim_front (line : List Char) {c : Char} (first : (trim line).head? = some c) :
    isBlank c = false := by
  obtain ⟨after, whole⟩ : trim line <+: trimStart line := trimEnd_prefix (trimStart line)
  have filled : trim line ≠ [] := by
    intro empty
    rw [empty] at first
    cases first
  have starts : (trimStart line).head? = some c := by
    rw [← whole, List.head?_append_of_ne_nil _ filled]
    exact first
  have kept := List.head?_dropWhile_not isBlank line
  rw [trimStart] at starts
  rw [starts] at kept
  simpa using kept

theorem trim_back (line : List Char) {c : Char} (last : (trim line).getLast? = some c) :
    isBlank c = false := by
  have kept := List.head?_dropWhile_not isBlank (trimStart line).reverse
  rw [trim, trimEnd, List.getLast?_reverse] at last
  rw [last] at kept
  simpa using kept

/-- What trimming takes away are blanks at the two ends. -/
theorem exists_padding (line : List Char) : ∃ before after,
    (∀ c ∈ before, isBlank c = true) ∧ (∀ c ∈ after, isBlank c = true) ∧
      line = before ++ trim line ++ after := by
  refine ⟨line.takeWhile isBlank, (trimStart line).rtakeWhile isBlank, ?_, ?_, ?_⟩
  · exact fun c inside => List.mem_takeWhile_imp inside
  · exact fun c inside => List.mem_rtakeWhile_imp inside
  · have ends : trim line ++ (trimStart line).rtakeWhile isBlank = trimStart line :=
      List.rdropWhile_append_rtakeWhile
    rw [List.append_assoc, ends, trimStart, List.takeWhile_append_dropWhile]

/-- A carriage return at the end of a line is a blank, so that trimming does not miss it. -/
theorem trimEnd_dropReturn (line : List Char) : trimEnd (dropReturn line) = trimEnd line := by
  unfold dropReturn
  split
  · rename_i rest shape
    have whole : line = rest.reverse ++ ['\r'] := by
      rw [← List.reverse_reverse line, shape, List.reverse_cons]
    rw [whole, trimEnd_append_blank _ (by decide)]
  · rfl

theorem head?_dropReturn {line : List Char} {c : Char} (other : c ≠ '\r') :
    (dropReturn line).head? = some c ↔ line.head? = some c := by
  unfold dropReturn
  split
  · rename_i rest shape
    have whole : line = rest.reverse ++ ['\r'] := by
      rw [← List.reverse_reverse line, shape, List.reverse_cons]
    rw [whole]
    cases rest.reverse with
    | nil => simp [other.symm]
    | cons d rest => simp
  · rfl

section

variable {separator : List Char} {parts : List (List Char)}

theorem joinWith_cons (part : List Char) (filled : parts ≠ []) :
    joinWith separator (part :: parts) = part ++ separator ++ joinWith separator parts := by
  obtain ⟨next, parts, rfl⟩ := List.exists_cons_of_ne_nil filled
  rfl

theorem mem_joinWith {c : Char} (member : c ∈ joinWith separator parts) :
    c ∈ separator ∨ ∃ part ∈ parts, c ∈ part := by
  induction parts with
  | nil => cases member
  | cons part parts ih =>
    by_cases single : parts = []
    · subst single
      exact .inr ⟨part, List.mem_cons_self, member⟩
    · rw [joinWith_cons part single, List.append_assoc, List.mem_append, List.mem_append] at member
      rcases member with here | between | later
      · exact .inr ⟨part, List.mem_cons_self, here⟩
      · exact .inl between
      · rcases ih later with between | ⟨other, inside, found⟩
        · exact .inl between
        · exact .inr ⟨other, List.mem_cons_of_mem _ inside, found⟩

/-- A joined text starts and ends as parts of it do. -/
theorem joinWith_ends (separator : List Char) (filled : parts ≠ [])
    (solid : ∀ part ∈ parts, part ≠ []) :
    (∃ part ∈ parts, (joinWith separator parts).head? = part.head?) ∧
      ∃ part ∈ parts, (joinWith separator parts).getLast? = part.getLast? := by
  induction parts with
  | nil => exact absurd rfl filled
  | cons part parts ih =>
    rw [List.forall_mem_cons] at solid
    by_cases single : parts = []
    · subst single
      exact ⟨⟨part, List.mem_cons_self, rfl⟩, part, List.mem_cons_self, rfl⟩
    · obtain ⟨⟨first, inside, starts⟩, last, member, ends⟩ := ih single solid.2
      have rest : joinWith separator parts ≠ [] := by
        intro empty
        rw [empty, List.head?_nil] at starts
        exact solid.2 first inside (List.head?_eq_none_iff.mp starts.symm)
      rw [joinWith_cons part single]
      refine ⟨⟨part, List.mem_cons_self, ?_⟩, last, List.mem_cons_of_mem _ member, ?_⟩
      · rw [List.append_assoc, List.head?_append_of_ne_nil _ solid.1]
      · rw [List.getLast?_append_of_ne_nil _ rest, ends]

end

end FormatLint.Text
