import FormatLint.Proofs.Report.Status
import FormatLint.Proofs.Text.Lines
import Mathlib.Data.List.Forall2

/-!
The report for people as a whole: a block for each file that has messages, in which each message
has a row of its own, and a summary that counts all of them.
-/

namespace FormatLint.Report

/-- The least width that holds every line. -/
structure Fits (width : Nat) (lines : List (List Char)) : Prop where
  holds : ∀ line ∈ lines, Text.displayWidth line ≤ width
  least : width = 0 ∨ ∃ line ∈ lines, Text.displayWidth line = width

/-- Where a message is. -/
def placeText (m : Message) : String := toString m.line ++ ":" ++ toString m.column

/-- The lines of a message's row. The place and the severity stand on the first one; a text or a
    rule of several lines goes on below itself, and nothing is put after the last column. -/
structure IsRow (place label text : Nat) (m : Message) (lines : List (List Char)) : Prop where
  height : lines.length = max 1
    (max (Text.lines m.text.toList).length (Text.lines (m.ruleId.getD "").toList).length)
  line : ∀ i < lines.length, lines[i]? = some (
    [' ', ' '] ++ fill place (if i = 0 then (placeText m).toList else []) ++
    [' ', ' '] ++ fill label (if i = 0 then m.severity.label.toList else []) ++
    [' ', ' '] ++ fill text ((Text.lines m.text.toList).getD i []) ++
    [' ', ' '] ++ (Text.lines (m.ruleId.getD "").toList).getD i [])

/-- The messages of a file in their order, each in its row, below an empty line and the file.
    Columns are as wide as their widest line. -/
def IsBlock (r : LintResult) (text : String) : Prop :=
  ∃ (place label width : Nat) (rows : List (List (List Char))),
    Fits place (r.messages.map fun m => (placeText m).toList) ∧
    Fits label (r.messages.map fun m => m.severity.label.toList) ∧
    Fits width (r.messages.flatMap fun m => Text.lines m.text.toList) ∧
    List.Forall₂ (IsRow place label width) r.messages rows ∧
    text = "\n" ++ r.file.display ++ "\n" ++
      String.ofList (rows.flatten.flatMap fun line => line ++ ['\n'])

/-- A count and its noun, which is singular for one. -/
inductive Counted (noun : String) : Nat → String → Prop where
  | one : Counted noun 1 ("1 " ++ noun)
  | many {n : Nat} (other : n ≠ 1) : Counted noun n (toString n ++ " " ++ noun ++ "s")

theorem foldl_max_zero (ns : List Nat) :
    (∀ n ∈ ns, n ≤ ns.foldl max 0) ∧ (ns.foldl max 0 = 0 ∨ ns.foldl max 0 ∈ ns) := by
  rw [List.foldl_max]
  cases widest : ns.max? with
  | none =>
    rw [List.max?_eq_none_iff.mp widest]
    simp
  | some n =>
    obtain ⟨member, bound⟩ := List.max?_eq_some_iff.mp widest
    simpa using ⟨bound, .inr member⟩

theorem Cell.width_fits (cell : Cell) : Fits cell.width cell := by
  obtain ⟨bound, attained⟩ := foldl_max_zero (cell.map Text.displayWidth)
  refine ⟨fun line member => bound _ (List.mem_map_of_mem member), ?_⟩
  rcases attained with zero | member
  · exact .inl zero
  · obtain ⟨line, inside, width⟩ := List.mem_map.mp member
    exact .inr ⟨line, inside, width⟩

/-- A column is as wide as the widest line of its cells. -/
theorem column_fits (cells : List Cell) :
    Fits ((cells.map Cell.width).foldl max 0) cells.flatten := by
  obtain ⟨bound, attained⟩ := foldl_max_zero (cells.map Cell.width)
  refine ⟨?_, ?_⟩
  · intro line member
    obtain ⟨cell, listed, inside⟩ := List.mem_flatten.mp member
    have inCell := (Cell.width_fits cell).holds line inside
    exact Nat.le_trans inCell (bound _ (List.mem_map_of_mem listed))
  · rcases attained with zero | member
    · exact .inl zero
    · obtain ⟨cell, listed, width⟩ := List.mem_map.mp member
      rw [← width]
      rcases (Cell.width_fits cell).least with zero | ⟨line, inside, same⟩
      · exact .inl zero
      · exact .inr ⟨line, List.mem_flatten.mpr ⟨cell, listed, inside⟩, same⟩

theorem ofText_line {text : String} (filled : text.toList ≠ []) (whole : '\n' ∉ text.toList) :
    Cell.ofText text = [text.toList] := Text.lines_last whole filled

theorem ofText_place (m : Message) : Cell.ofText (placeText m) = [(placeText m).toList] := by
  have digits (n : Nat) : '\n' ∉ Nat.toDigits 10 n := by
    intro feed
    have isDigit := Nat.isDigit_of_mem_toDigits (by decide) (by decide) feed
    cases isDigit
  exact ofText_line (by simp [placeText]) (by simp [placeText, digits])

theorem ofText_label (s : Severity) : Cell.ofText s.label = [s.label.toList] := by
  cases s <;> exact ofText_line (by decide) (by decide)

/-- Only the text and the rule of a message can have several lines. -/
theorem messageRow_eq (m : Message) : messageRow m =
    [[(placeText m).toList], [m.severity.label.toList], Text.lines m.text.toList,
      Text.lines (m.ruleId.getD "").toList] := by
  rw [← ofText_place, ← ofText_label]
  rfl

theorem rowHeight_message (m : Message) : rowHeight (messageRow m) = max 1
    (max (Text.lines m.text.toList).length (Text.lines (m.ruleId.getD "").toList).length) := by
  simp only [rowHeight, messageRow_eq, List.map_cons, List.map_nil, List.length_singleton,
    List.foldl_cons, List.foldl_nil]
  omega

/-- The lines of a message's row in a table with these widths. -/
def rowLines (widths : List Nat) (m : Message) : List (List Char) :=
  (List.range (rowHeight (messageRow m))).map fun i => rowLine i widths (messageRow m)

theorem rowLines_isRow (place label text rule : Nat) (m : Message) :
    IsRow place label text m (rowLines [place, label, text, rule] m) := by
  have height : (rowLines [place, label, text, rule] m).length = rowHeight (messageRow m) := by
    rw [rowLines, List.length_map, List.length_range]
  refine ⟨by rw [height, rowHeight_message], ?_⟩
  intro i inside
  rw [height] at inside
  rw [rowLines, List.getElem?_map, List.getElem?_range inside, Option.map_some, messageRow_eq]
  have first (line : List Char) : [line].getD i [] = if i = 0 then line else [] := by
    cases i <;> rfl
  simp only [rowLine, first, List.isEmpty_cons, List.isEmpty_nil, if_true, Bool.false_eq_true,
    if_false, List.append_nil, List.cons_append, List.nil_append, List.append_assoc]

theorem renderRows_messages (widths : List Nat) (messages : List Message) :
    ((messages.map messageRow).map (renderRow widths)).flatten =
      (messages.map (rowLines widths)).flatten.flatMap fun line => line ++ ['\n'] := by
  induction messages with
  | nil => rfl
  | cons m messages ih =>
    have own : renderRow widths (messageRow m) =
        (rowLines widths m).flatMap fun line => line ++ ['\n'] := by
      rw [renderRow, rowLines, List.flatMap_map, List.flatMap_def]
    simp only [List.map_cons, List.flatten_cons, List.flatMap_append, ih, own]

/-- The width of a column of the table of some messages. -/
def columnWidth (messages : List Message) (cell : Message → Cell) : Nat :=
  (messages.map fun m => Cell.width (cell m)).foldl max 0

theorem columnWidth_fits (messages : List Message) (cell : Message → Cell) :
    Fits (columnWidth messages cell) (messages.flatMap cell) := by
  have fits := column_fits (messages.map cell)
  rwa [List.map_map, ← List.flatMap_def] at fits

theorem columnWidths_messages (messages : List Message) :
    columnWidths 4 (messages.map messageRow) =
      [columnWidth messages fun m => [(placeText m).toList],
        columnWidth messages fun m => [m.severity.label.toList],
        columnWidth messages fun m => Text.lines m.text.toList,
        columnWidth messages fun m => Text.lines (m.ruleId.getD "").toList] := by
  simp only [columnWidths, List.map_map, Function.comp_def, messageRow_eq]
  rfl

theorem block_isBlock (r : LintResult) : IsBlock r (block r) := by
  have place := columnWidth_fits r.messages fun m => [(placeText m).toList]
  have label := columnWidth_fits r.messages fun m => [m.severity.label.toList]
  rw [← List.map_eq_flatMap] at place label
  refine ⟨_, _, _, r.messages.map (rowLines (columnWidths 4 (r.messages.map messageRow))),
    place, label, columnWidth_fits r.messages _, ?_, ?_⟩
  · rw [List.forall₂_map_right_iff, List.forall₂_same, columnWidths_messages]
    exact fun m _ => rowLines_isRow _ _ _ _ m
  · rw [block, renderTable, renderRows_messages]

example : block ⟨Path.ofString "/b.js",
    [⟨some "semi", .error, "Missing.\nAdd it.", 3, 17, false⟩, ⟨none, .warning, "", 0, 0, false⟩],
    none⟩ =
    "\n/b.js\n  3:17  error    Missing.  semi\n" ++
    "                 Add it.   \n  0:0   warning            \n" := by decide +kernel

theorem plural_counted (noun : String) (n : Nat) : Counted noun n (plural n noun) := by
  unfold plural
  split
  · rename_i single
    subst single
    rw [String.append_empty]
    exact .one
  · rename_i other
    exact .many other

theorem flatMap_reported (results : List LintResult) :
    (reported results).flatMap (·.messages) = results.flatMap (·.messages) := by
  induction results with
  | nil => rfl
  | cons r results ih =>
    rw [reported] at ih ⊢
    by_cases quiet : r.messages = []
    · rw [List.filter_cons_of_neg (by simp [quiet]), ih, List.flatMap_cons, quiet, List.nil_append]
    · rw [List.filter_cons_of_pos (by simp [quiet]), List.flatMap_cons, ih, List.flatMap_cons]

/-- Counting file by file is counting all messages. -/
theorem total_count (severity : Severity) (results : List LintResult) :
    ((reported results).map (LintResult.count severity)).foldl (· + ·) 0 =
      (results.flatMap (·.messages)).countP (·.severity == severity) := by
  rw [← flatMap_reported, List.countP_flatMap, List.sum_eq_foldl]
  rfl

/-- A message is an error or a warning, and not both. -/
theorem count_severities (messages : List Message) :
    messages.countP (·.severity == .error) + messages.countP (·.severity == .warning) =
      messages.length := by
  rw [List.length_eq_countP_add_countP (·.severity == .error)]
  congr 1
  apply List.countP_congr
  intro m _
  cases m.severity <;> decide

/-- The report of results of which one has a message. It is a block for each result that has some,
    in the order of the results, and the summary; the summary counts the errors and the warnings of
    all results, and the problems are all messages. -/
theorem stylish_accounts_for_messages (results : List LintResult)
    (found : ∃ r ∈ results, r.messages ≠ []) :
    ∃ (blocks : List String) (problems errors warnings : String),
      Formatter.stylish.render results = String.join blocks ++
        "\n\u2716 " ++ problems ++ " (" ++ errors ++ ", " ++ warnings ++ ")\n" ∧
      List.Forall₂ IsBlock (results.filter (·.messages ≠ [])) blocks ∧
      Counted "error" ((results.flatMap (·.messages)).countP (·.severity = .error)) errors ∧
      Counted "warning" ((results.flatMap (·.messages)).countP (·.severity = .warning)) warnings ∧
      Counted "problem" (results.flatMap (·.messages)).length problems ∧
      (results.flatMap (·.messages)).length =
        (results.flatMap (·.messages)).countP (·.severity = .error) +
          (results.flatMap (·.messages)).countP (·.severity = .warning) := by
  have shown : reported results = results.filter (·.messages ≠ []) := by
    apply List.filter_congr
    intro r _
    cases r.messages <;> simp
  have filled : (reported results).isEmpty = false := by
    obtain ⟨r, member, some⟩ := found
    rw [List.isEmpty_eq_false_iff_exists_mem]
    exact ⟨r, List.mem_filter.mpr ⟨member, by simp [some]⟩⟩
  have errors := total_count .error results
  have warnings := total_count .warning results
  have sum := count_severities (results.flatMap (·.messages))
  simp only [beq_eq_decide] at errors warnings sum
  refine ⟨(reported results).map block, _, _, _, ?_, ?_, plural_counted "error" _,
    plural_counted "warning" _, plural_counted "problem" _, sum.symm⟩
  · rw [← sum, ← errors, ← warnings, Formatter.render, stylish, filled]
    simp only [Bool.false_eq_true, if_false, summary, String.append_assoc]
    rfl
  · rw [← shown, List.forall₂_map_right_iff, List.forall₂_same]
    exact fun r _ => block_isBlock r

/-- A file without messages, and one with an error on two lines and a warning without a rule. -/
def mixedResults : List LintResult := [
  { file := Path.ofString "/a.js" },
  { file := Path.ofString "/b.js"
    messages := [
      { ruleId := some "semi", severity := .error, text := "Missing.\nAdd it.", line := 3 },
      { ruleId := none, severity := .warning, text := "File ignored." }] }]

theorem stylish_accounts_for_messages_sample : (∃ r ∈ mixedResults, r.messages ≠ []) ∧
    ∃ (blocks : List String) (problems errors warnings : String),
      Formatter.stylish.render mixedResults = String.join blocks ++
        "\n\u2716 " ++ problems ++ " (" ++ errors ++ ", " ++ warnings ++ ")\n" ∧
      List.Forall₂ IsBlock (mixedResults.filter (·.messages ≠ [])) blocks ∧
      Counted "error" 1 errors ∧ Counted "warning" 1 warnings ∧ Counted "problem" 2 problems := by
  have found : ∃ r ∈ mixedResults, r.messages ≠ [] :=
    ⟨_, List.mem_cons_of_mem _ (List.mem_singleton_self _), List.cons_ne_nil _ _⟩
  obtain ⟨blocks, problems, errors, warnings, written, each, errorCount, warningCount,
    problemCount, -⟩ := stylish_accounts_for_messages mixedResults found
  exact ⟨found, blocks, problems, errors, warnings, written, each, errorCount, warningCount,
    problemCount⟩

end FormatLint.Report
