import FormatLint.Proofs.Text.Lines
import FormatLint.Selection.PatternText

/-!
Pattern files as texts that patterns are laid out in. Every text is a layout of the patterns that
are extracted from it, and of no other list of patterns (`extractPatterns_iff_laidOut`).
-/

namespace FormatLint.Selection

/-- A text that can stand as a pattern on a line of its own. -/
structure IsPatternText (p : String) : Prop where
  filled : p ≠ ""
  unbroken : '\n' ∉ p.toList ∧ '\r' ∉ p.toList
  front : ∀ c, p.toList.head? = some c → Text.isBlank c = false
  back : ∀ c, p.toList.getLast? = some c → Text.isBlank c = false
  unmarked : p.toList.head? ≠ some '#'

/-- Blanks that do not break the line. -/
def IsPadding (cs : List Char) : Prop := ∀ c ∈ cs, Text.isBlank c = true ∧ c ≠ '\n' ∧ c ≠ '\r'

/-- A line, with the pattern that it holds. -/
inductive PatternLine : Option String → List Char → Prop where
  | blank {line : List Char} (blanks : IsPadding line) : PatternLine none line
  | comment {indent rest : List Char} (indented : IsPadding indent)
      (unbroken : '\n' ∉ rest ∧ '\r' ∉ rest) : PatternLine none (indent ++ '#' :: rest)
  | pattern {p : String} {before after : List Char} (padded : IsPadding before)
      (padded' : IsPadding after) : PatternLine (some p) (before ++ p.toList ++ after)

inductive LineBreak where
  | feed
  | return
  | returnFeed

def LineBreak.text : LineBreak → List Char
  | feed => ['\n']
  | .return => ['\r']
  | returnFeed => ['\r', '\n']

/-- A text whose lines hold these patterns, with any of the line breaks between any two lines. -/
inductive LaidOut : List String → List Char → Prop where
  | last {p : Option String} {line : List Char} (holds : PatternLine p line) :
      LaidOut p.toList line
  | line {p : Option String} {line : List Char} {ps : List String} {rest : List Char}
      (holds : PatternLine p line) (ending : LineBreak) (later : LaidOut ps rest) :
      LaidOut (p.toList ++ ps) (line ++ ending.text ++ rest)

theorem isBreak_eq_false {c : Char} : isBreak c = false ↔ c ≠ '\n' ∧ c ≠ '\r' := by
  simp [isBreak]

theorem unbroken_iff {cs : List Char} :
    (∀ c ∈ cs, isBreak c = false) ↔ '\n' ∉ cs ∧ '\r' ∉ cs := by
  simp only [isBreak_eq_false, forall_and]
  constructor
  · rintro ⟨noFeed, noReturn⟩
    exact ⟨fun inside => noFeed _ inside rfl, fun inside => noReturn _ inside rfl⟩
  · rintro ⟨noFeed, noReturn⟩
    exact ⟨fun c inside same => noFeed (same ▸ inside),
      fun c inside same => noReturn (same ▸ inside)⟩

theorem IsPadding.blank {cs : List Char} (padding : IsPadding cs) :
    ∀ c ∈ cs, Text.isBlank c = true := fun c inside => (padding c inside).1

theorem IsPadding.unbroken {cs : List Char} (padding : IsPadding cs) :
    ∀ c ∈ cs, isBreak c = false := fun c inside => isBreak_eq_false.mpr (padding c inside).2

/-- The patterns among some lines. -/
def patternsOf (lines : List (List Char)) : List String :=
  ((lines.map Text.trim).filter isPattern).map String.ofList

theorem patternsOf_append (lines more : List (List Char)) :
    patternsOf (lines ++ more) = patternsOf lines ++ patternsOf more := by
  simp [patternsOf]

namespace PatternLine

variable {p : Option String} {line : List Char}

theorem unbroken (holds : PatternLine p line) (texts : ∀ q ∈ p, IsPatternText q) :
    ∀ c ∈ line, isBreak c = false := by
  cases holds with
  | blank blanks => exact blanks.unbroken
  | comment indented unbroken =>
    simp only [List.forall_mem_append, List.forall_mem_cons]
    exact ⟨indented.unbroken, by decide, unbroken_iff.mpr unbroken⟩
  | pattern padded padded' =>
    simp only [List.forall_mem_append]
    exact ⟨⟨padded.unbroken, unbroken_iff.mpr (texts _ rfl).unbroken⟩, padded'.unbroken⟩

theorem patternsOf_line (holds : PatternLine p line) (texts : ∀ q ∈ p, IsPatternText q) :
    patternsOf [line] = p.toList := by
  cases holds with
  | blank blanks =>
    have empty := Text.trim_blank blanks.blank
    simp [patternsOf, empty, isPattern]
  | @comment indent rest indented unbroken =>
    have marked : Text.trim (indent ++ '#' :: rest) = '#' :: Text.trimEnd rest := by
      rw [Text.trim, Text.trimStart_padded indented.blank, Text.trimStart_solid (by simp; decide),
        Text.trimEnd_cons (by decide)]
    simp [patternsOf, marked, isPattern]
  | @pattern p before after padded padded' =>
    obtain ⟨filled, -, front, back, unmarked⟩ := texts p rfl
    have itself := Text.trim_padded padded.blank padded'.blank front back
    have kept : isPattern p.toList = true := by
      cases shape : p.toList with
      | nil => exact absurd (String.toList_eq_nil_iff.mp shape) filled
      | cons c rest =>
        rw [shape] at unmarked
        simpa [isPattern] using unmarked
    rw [patternsOf, List.map_singleton, itself, List.filter_cons_of_pos kept]
    simp

/-- Every line holds a pattern or none. -/
theorem of_line (plain : ∀ c ∈ line, isBreak c = false) :
    ∃ p, PatternLine p line ∧ ∀ q ∈ p, IsPatternText q := by
  obtain ⟨before, after, blankBefore, blankAfter, whole⟩ := Text.exists_padding line
  have front (c : Char) := Text.trim_front line (c := c)
  have back (c : Char) := Text.trim_back line (c := c)
  generalize Text.trim line = core at whole front back
  subst whole
  simp only [List.forall_mem_append] at plain
  obtain ⟨⟨plainBefore, plainCore⟩, plainAfter⟩ := plain
  have paddingBefore : IsPadding before := fun c inside =>
    ⟨blankBefore c inside, isBreak_eq_false.mp (plainBefore c inside)⟩
  have paddingAfter : IsPadding after := fun c inside =>
    ⟨blankAfter c inside, isBreak_eq_false.mp (plainAfter c inside)⟩
  cases core with
  | nil =>
    refine ⟨none, .blank ?_, by simp⟩
    intro c inside
    rw [List.append_nil] at inside
    exact (List.mem_append.mp inside).elim (paddingBefore c) (paddingAfter c)
  | cons c rest =>
    by_cases marked : c = '#'
    · subst marked
      have unbroken : '\n' ∉ rest ++ after ∧ '\r' ∉ rest ++ after := by
        rw [← unbroken_iff, List.forall_mem_append]
        exact ⟨(List.forall_mem_cons.mp plainCore).2, plainAfter⟩
      have comment := PatternLine.comment paddingBefore unbroken
      exact ⟨none, by simpa using comment, by simp⟩
    · have pattern : PatternLine (some (String.ofList (c :: rest)))
          (before ++ (String.ofList (c :: rest)).toList ++ after) :=
        .pattern paddingBefore paddingAfter
      rw [String.toList_ofList] at pattern
      refine ⟨some _, pattern, ?_⟩
      rintro q ⟨⟩
      refine ⟨by simp, ?_, ?_, ?_, ?_⟩
      · rw [String.toList_ofList]
        exact unbroken_iff.mp plainCore
      · simpa using front
      · simpa using back
      · simpa using marked

end PatternLine

theorem extractPatterns_eq (text : String) :
    extractPatterns text = patternsOf (Text.splitOn isBreak text.toList) := rfl

/-- A line break ends the line before it; between its two characters stands an empty line. -/
theorem patternsOf_break {line : List Char} (plain : ∀ c ∈ line, isBreak c = false)
    (ending : LineBreak) (rest : List Char) :
    patternsOf (Text.splitOn isBreak (line ++ ending.text ++ rest)) =
      patternsOf [line] ++ patternsOf (Text.splitOn isBreak rest) := by
  have after (c : Char) (divides : isBreak c = true) (rest : List Char) :
      patternsOf (Text.splitOn isBreak (line ++ c :: rest)) =
        patternsOf [line] ++ patternsOf (Text.splitOn isBreak rest) := by
    rw [Text.splitOn_append plain divides, ← patternsOf_append]
    rfl
  rw [List.append_assoc]
  cases ending with
  | feed => exact after '\n' (by decide) rest
  | «return» => exact after '\r' (by decide) rest
  | returnFeed =>
    rw [LineBreak.text, List.cons_append, after '\r' (by decide)]
    rfl

theorem LaidOut.patterns {ps : List String} {text : List Char} (laid : LaidOut ps text)
    (texts : ∀ p ∈ ps, IsPatternText p) : patternsOf (Text.splitOn isBreak text) = ps := by
  induction laid with
  | @last p line holds =>
    have mine : ∀ q ∈ p, IsPatternText q := by simpa using texts
    rw [Text.splitOn_plain (holds.unbroken mine), holds.patternsOf_line mine]
  | @line p line ps rest holds ending later ih =>
    rw [List.forall_mem_append] at texts
    have mine : ∀ q ∈ p, IsPatternText q := by simpa using texts.1
    rw [patternsOf_break (holds.unbroken mine), holds.patternsOf_line mine, ih texts.2]

/-- Every text is a layout of pattern texts. -/
theorem exists_laidOut (text : List Char) : ∃ ps, LaidOut ps text ∧ ∀ p ∈ ps, IsPatternText p := by
  induction text using Text.splitOn_induction (p := isBreak) with
  | last line plain =>
    obtain ⟨p, holds, mine⟩ := PatternLine.of_line plain
    exact ⟨p.toList, .last holds, by simpa using mine⟩
  | divided line c rest plain divides ih =>
    obtain ⟨p, holds, mine⟩ := PatternLine.of_line plain
    obtain ⟨ps, later, texts⟩ := ih
    have split : c = '\n' ∨ c = '\r' := by simpa [isBreak] using divides
    have laid : LaidOut (p.toList ++ ps) (line ++ c :: rest) := by
      rcases split with rfl | rfl
      · simpa [LineBreak.text] using LaidOut.line holds .feed later
      · simpa [LineBreak.text] using LaidOut.line holds .return later
    refine ⟨_, laid, ?_⟩
    rw [List.forall_mem_append]
    exact ⟨by simpa using mine, texts⟩

theorem extractPatterns_iff_laidOut (text : String) (ps : List String) :
    (∀ p ∈ ps, IsPatternText p) ∧ LaidOut ps text.toList ↔ extractPatterns text = ps := by
  rw [extractPatterns_eq]
  constructor
  · rintro ⟨texts, laid⟩
    exact laid.patterns texts
  · obtain ⟨found, laid, texts⟩ := exists_laidOut text.toList
    rw [laid.patterns texts]
    rintro rfl
    exact ⟨texts, laid⟩

theorem IsPadding.nil : IsPadding [] := by
  intro c inside
  cases inside

/-- Pattern texts with line feeds between them are a layout. -/
theorem laidOut_lines (ps : List String) : LaidOut ps ("\n".intercalate ps).toList := by
  have single (p : String) : PatternLine (some p) p.toList := by
    simpa using PatternLine.pattern (p := p) .nil .nil
  induction ps with
  | nil => exact LaidOut.last (.blank .nil)
  | cons p ps ih =>
    cases ps with
    | nil => simpa using LaidOut.last (single p)
    | cons q ps =>
      simpa [LineBreak.text, String.intercalate_cons_cons] using LaidOut.line (single p) .feed ih

/-- A list of pattern texts is extracted from exactly the texts that are a layout of it, whatever
    the blanks around each pattern, the blank lines and comments between them and the line breaks;
    and every extracted list is one. So the patterns of a text, joined by line feeds, are extracted
    again. -/
theorem extractPatterns_inverts_layout (text : String) (ps : List String) :
    ((∀ p ∈ ps, IsPatternText p) ∧ LaidOut ps text.toList ↔ extractPatterns text = ps) ∧
    extractPatterns ("\n".intercalate (extractPatterns text)) = extractPatterns text := by
  refine ⟨extractPatterns_iff_laidOut text ps, ?_⟩
  obtain ⟨texts, -⟩ := (extractPatterns_iff_laidOut text _).mpr rfl
  exact (extractPatterns_iff_laidOut _ _).mp ⟨texts, laidOut_lines _⟩

example : extractPatterns "\ta b \r\n# c\r\u00A0\n#\rd#\u2028" = ["a b", "d#"] := by decide

end FormatLint.Selection
