import FormatLint.Selection.IgnoreText
import FormatLint.Proofs.Text.Lines

/-!
Negated lines of an ignore file. Whatever becomes of them, the other lines give the same globs: one
equation per policy says what a whole file amounts to, and from the two it follows that warnings
make a file mean what it means without its negated lines.
-/

namespace FormatLint

namespace Sink

/-- Writes lines one after the other up to the first one that is refused. The answer is its fault,
    if there is one, and the stream as it was left. -/
def writeAll (sink : Sink) : List String → Option SystemFault × Sink
  | [] => (none, sink)
  | line :: rest =>
    match sink.write line with
    | .error fault => (some fault, sink)
    | .ok written => written.writeAll rest

theorem write_lines {sink after : Sink} {line : String} (written : sink.write line = .ok after) :
    after.lines = (line ++ "\n") :: sink.lines := by
  unfold write at written
  simp only at written
  split at written
  · cases written
    rfl
  · split at written
    · cases written
      rfl
    · cases written

theorem writeAll_lines {sink after : Sink} {lines : List String}
    (written : sink.writeAll lines = (none, after)) :
    after.lines.reverse = sink.lines.reverse ++ lines.map (· ++ "\n") := by
  induction lines generalizing sink with
  | nil =>
    cases written
    simp
  | cons line lines ih =>
    unfold writeAll at written
    split at written
    · cases written
    · rename_i next first
      rw [ih written, write_lines first]
      simp

/-- A stream without a limit takes everything. -/
theorem writeAll_unlimited {sink : Sink} (unlimited : sink.room = none) (lines : List String) :
    ∃ after, sink.writeAll lines = (none, after) := by
  induction lines generalizing sink with
  | nil => exact ⟨sink, rfl⟩
  | cons line lines ih =>
    have written : sink.write line = .ok { sink with lines := (line ++ "\n") :: sink.lines } := by
      simp [write, unlimited]
    obtain ⟨after, below⟩ :=
      @ih { sink with lines := (line ++ "\n") :: sink.lines } unlimited
    exact ⟨after, by rw [writeAll, written]; exact below⟩

theorem writeAll_refused {sink full : Sink} {first : List String} {next : String}
    {fault : SystemFault} (accepted : sink.writeAll first = (none, full))
    (refused : full.write next = .error fault) (rest : List String) :
    sink.writeAll (first ++ next :: rest) = (some fault, full) := by
  induction first generalizing sink with
  | nil =>
    cases accepted
    rw [List.nil_append, writeAll, refused]
  | cons line first ih =>
    unfold writeAll at accepted
    split at accepted
    · cases accepted
    · rename_i written taken
      rw [List.cons_append, writeAll, taken]
      exact ih accepted

end Sink

namespace Selection

namespace IgnoreLine

def pattern? : IgnoreLine → Option (List Char)
  | .pattern line => some line
  | _ => none

def negated? : IgnoreLine → Option (List Char)
  | .negated line => some line
  | _ => none

/-- Only trailing blanks are lost when a line is read. -/
theorem ofText_congr {line other : List Char} (same : Text.trimEnd line = Text.trimEnd other) :
    ofText line = ofText other := by
  unfold ofText
  rw [same]

theorem ofText_negated (line : List Char) :
    ofText ('!' :: line) = .negated (Text.trimEnd ('!' :: line)) := by
  unfold ofText
  rw [Text.trimEnd_cons (by decide)]
  simp [Text.trimStart, Text.isBlank]

theorem negated?_ofText (line : List Char) :
    (ofText line).negated? =
      if line.head? = some '!' then some (Text.trimEnd line) else none := by
  split
  · rename_i marked
    obtain ⟨rest, rfl⟩ := List.head?_eq_some_iff.mp marked
    rw [ofText_negated]
    rfl
  · rename_i unmarked
    unfold ofText
    simp only
    split
    · rfl
    · split
      · rfl
      · rename_i rest shape
        -- what is left of a line after trimming starts as the line does
        obtain ⟨blanks, whole⟩ := Text.trimEnd_prefix line
        rw [shape] at whole
        rw [← whole] at unmarked
        simp at unmarked
      · rfl
      · rfl

end IgnoreLine

/-- The globs of the pattern lines, in order. -/
def patternGlobs (lines : List IgnoreLine) : List (List Char) :=
  (lines.filterMap IgnoreLine.pattern?).flatMap lineGlobs

/-- The negated lines, in order and without the blanks that end them. -/
def negatedLines (lines : List IgnoreLine) : List (List Char) :=
  lines.filterMap IgnoreLine.negated?

section

variable (line : List Char) (lines : List IgnoreLine)

@[simp] theorem patternGlobs_nothing : patternGlobs (.nothing :: lines) = patternGlobs lines := rfl

@[simp] theorem patternGlobs_negated :
    patternGlobs (.negated line :: lines) = patternGlobs lines := rfl

@[simp] theorem patternGlobs_pattern :
    patternGlobs (.pattern line :: lines) = lineGlobs line ++ patternGlobs lines := rfl

@[simp] theorem negatedLines_nothing : negatedLines (.nothing :: lines) = negatedLines lines := rfl

@[simp] theorem negatedLines_negated :
    negatedLines (.negated line :: lines) = line :: negatedLines lines := rfl

@[simp] theorem negatedLines_pattern :
    negatedLines (.pattern line :: lines) = negatedLines lines := rfl

end

/-- What the lines of an ignore file stand for. -/
def ignoreLines (text : String) : List IgnoreLine :=
  (Text.lines text.toList).map IgnoreLine.ofText

/-- A warning that cannot be written. -/
def warningRefused (fault : SystemFault) : Error :=
  Error.ofFault "write warning" (Path.ofString ignoreFileName) fault

theorem ignoreGlobsFrom_strict (sink : Sink) (lines : List IgnoreLine) :
    ignoreGlobsFrom .strict sink lines =
      (if (negatedLines lines).isEmpty then .ok (patternGlobs lines)
        else .error Error.negatedPattern, sink) := by
  induction lines with
  | nil => rfl
  | cons line lines ih =>
    cases line with
    | nothing => simpa [ignoreGlobsFrom] using ih
    | negated line => simp [ignoreGlobsFrom]
    | pattern line =>
      rw [ignoreGlobsFrom, ih, negatedLines_pattern, patternGlobs_pattern]
      cases clean : (negatedLines lines).isEmpty with
      | true => rfl
      | false => rfl

theorem ignoreGlobsFrom_warn (sink : Sink) (lines : List IgnoreLine) :
    ignoreGlobsFrom .warn sink lines =
      match sink.writeAll ((negatedLines lines).map negationWarning) with
      | (none, after) => (.ok (patternGlobs lines), after)
      | (some fault, after) => (.error (warningRefused fault), after) := by
  induction lines generalizing sink with
  | nil => rfl
  | cons line lines ih =>
    cases line with
    | nothing => simpa [ignoreGlobsFrom] using ih sink
    | negated line =>
      rw [ignoreGlobsFrom, negatedLines_negated, List.map_cons, Sink.writeAll]
      cases written : sink.write (negationWarning line) with
      | error fault => rfl
      | ok after => simpa using ih after
    | pattern line =>
      rw [ignoreGlobsFrom, ih, negatedLines_pattern, patternGlobs_pattern]
      rcases sink.writeAll ((negatedLines lines).map negationWarning) with ⟨_ | fault, after⟩
      · rfl
      · rfl

theorem ignoreGlobs_eq (policy : NegationPolicy) (sink : Sink) (text : String) :
    ignoreGlobs policy sink text =
      Prod.map (Except.map (List.map String.ofList)) id
        (ignoreGlobsFrom policy sink (ignoreLines text)) := by
  unfold ignoreGlobs ignoreLines
  rcases ignoreGlobsFrom policy sink ((Text.lines text.toList).map IgnoreLine.ofText)
    with ⟨_ | globs, after⟩
  · rfl
  · rfl

/-- The globs that a file gives do not depend on the policy. -/
theorem ignoreGlobs_ok {policy : NegationPolicy} {sink after : Sink} {text : String}
    {globs : List String} (read : ignoreGlobs policy sink text = (.ok globs, after)) :
    globs = (patternGlobs (ignoreLines text)).map String.ofList := by
  rw [ignoreGlobs_eq] at read
  cases policy with
  | strict =>
    rw [ignoreGlobsFrom_strict] at read
    split at read
    · exact (Except.ok.inj (Prod.mk.inj read).1).symm
    · cases (Prod.mk.inj read).1
  | warn =>
    rw [ignoreGlobsFrom_warn] at read
    split at read
    · exact (Except.ok.inj (Prod.mk.inj read).1).symm
    · cases (Prod.mk.inj read).1

/-- A file without negated lines is read under either policy, and nothing is written. -/
theorem ignoreGlobs_clean (policy : NegationPolicy) (sink : Sink) {text : String}
    (clean : negatedLines (ignoreLines text) = []) :
    ignoreGlobs policy sink text =
      (.ok ((patternGlobs (ignoreLines text)).map String.ofList), sink) := by
  rw [ignoreGlobs_eq]
  cases policy with
  | strict =>
    rw [ignoreGlobsFrom_strict, clean]
    rfl
  | warn =>
    rw [ignoreGlobsFrom_warn, clean]
    rfl

def isNegated (line : List Char) : Bool := line.head? == some '!'

/-- The text with its negated lines deleted. -/
def withoutNegated (text : String) : String :=
  String.ofList ((Text.wholeLines text.toList).filter (! isNegated ·)).flatten

/-- The warnings that the negated lines of a text call for, in the order of the lines. -/
def warningsFor (text : String) : List String :=
  ((Text.lines text.toList).filter isNegated).map fun line => negationWarning (Text.trimEnd line)

theorem isNegated_dropReturn (line : List Char) :
    isNegated (Text.dropReturn line) = isNegated line := by
  rw [Bool.eq_iff_iff, isNegated, isNegated, beq_iff_eq, beq_iff_eq]
  exact Text.head?_dropReturn (by decide)

theorem isNegated_feed (line : List Char) : isNegated (line ++ ['\n']) = isNegated line := by
  cases line with
  | nil => rfl
  | cons c line => rfl

theorem lines_withoutNegated (text : String) :
    Text.lines (withoutNegated text).toList = (Text.lines text.toList).filter (! isNegated ·) := by
  rw [withoutNegated, String.toList_ofList]
  induction text.toList using Text.line_induction with
  | nil => rfl
  | last line whole filled =>
    rw [Text.wholeLines_last whole filled, Text.lines_last whole filled]
    cases marked : isNegated line with
    | true => simp [marked]
    | false => simp [marked, Text.lines_last whole filled]
  | feed line rest whole ih =>
    rw [Text.wholeLines_feed whole, Text.lines_feed whole, List.filter_cons, List.filter_cons,
      isNegated_feed, isNegated_dropReturn]
    cases marked : isNegated line with
    | true => simpa using ih
    | false =>
      have shape : ((line ++ ['\n']) :: (Text.wholeLines rest).filter (! isNegated ·)).flatten =
          line ++ '\n' :: ((Text.wholeLines rest).filter (! isNegated ·)).flatten := by simp
      simp only [Bool.not_false, if_true, shape, Text.lines_feed whole, ih]

theorem negatedLines_ofText (lines : List (List Char)) :
    negatedLines (lines.map IgnoreLine.ofText) = (lines.filter isNegated).map Text.trimEnd := by
  induction lines with
  | nil => rfl
  | cons line lines ih =>
    have first := IgnoreLine.negated?_ofText line
    rw [negatedLines, List.map_cons, List.filterMap_cons, first, List.filter_cons]
    by_cases marked : line.head? = some '!'
    · rw [negatedLines] at ih
      simp [isNegated, marked, ih]
    · rw [negatedLines] at ih
      simp [isNegated, marked, ih]

theorem patternGlobs_ofText (lines : List (List Char)) :
    patternGlobs ((lines.filter (! isNegated ·)).map IgnoreLine.ofText) =
      patternGlobs (lines.map IgnoreLine.ofText) := by
  induction lines with
  | nil => rfl
  | cons line lines ih =>
    rw [List.filter_cons]
    cases marked : isNegated line with
    | true =>
      obtain ⟨rest, rfl⟩ := List.head?_eq_some_iff.mp (beq_iff_eq.mp marked)
      simpa [IgnoreLine.ofText_negated] using ih
    | false =>
      simp only [Bool.not_false, if_true, List.map_cons]
      cases IgnoreLine.ofText line <;> simp [ih]

theorem warningsFor_eq (text : String) :
    (negatedLines (ignoreLines text)).map negationWarning = warningsFor text := by
  rw [ignoreLines, negatedLines_ofText, List.map_map]
  rfl

/-- What is left without the negated lines is read under either policy. -/
theorem ignoreGlobs_withoutNegated (policy : NegationPolicy) (sink : Sink) (text : String) :
    ignoreGlobs policy sink (withoutNegated text) =
      (.ok ((patternGlobs (ignoreLines text)).map String.ofList), sink) := by
  have clean : negatedLines (ignoreLines (withoutNegated text)) = [] := by
    rw [ignoreLines, lines_withoutNegated, negatedLines_ofText]
    simp
  rw [ignoreGlobs_clean policy sink clean, ignoreLines, lines_withoutNegated, patternGlobs_ofText]
  rfl

/-- Negated lines under the two policies. The strict one fails exactly if there is one, and writes
    nothing. With warnings, and a stream that takes them all, a file is read as it would be read
    without its negated lines, and each of them is named once, in order. A stream that takes `k`
    warnings and refuses the next one ends the reading there. -/
theorem negation_policies_agree (sink : Sink) (text : String) :
    ((∃ message hint,
        (ignoreGlobs .strict sink text).1 = .error (.configurationConflict message hint)) ↔
      ∃ line ∈ Text.lines text.toList, isNegated line = true) ∧
    (ignoreGlobs .strict sink text).2 = sink ∧
    (sink.room = none →
      (ignoreGlobs .warn sink text).1 = (ignoreGlobs .strict sink (withoutNegated text)).1 ∧
      (ignoreGlobs .warn sink text).2.lines.reverse =
        sink.lines.reverse ++ (warningsFor text).map (· ++ "\n")) ∧
    ∀ (k : Nat) (next : String) (full : Sink) (fault : SystemFault),
      (warningsFor text)[k]? = some next →
      sink.writeAll ((warningsFor text).take k) = (none, full) →
      full.write next = .error fault →
      ignoreGlobs .warn sink text =
          (.error (.io "write warning" (some (Path.ofString ".gitignore")) (some fault)), full) ∧
        full.lines.reverse =
          sink.lines.reverse ++ ((warningsFor text).take k).map (· ++ "\n") := by
  have strict := ignoreGlobs_eq .strict sink text
  have warn := ignoreGlobs_eq .warn sink text
  rw [ignoreGlobsFrom_strict] at strict
  rw [ignoreGlobsFrom_warn, warningsFor_eq] at warn
  refine ⟨?_, by rw [strict]; rfl, ?_, ?_⟩
  · have marked : (negatedLines (ignoreLines text)).isEmpty = false ↔
        ∃ line ∈ Text.lines text.toList, isNegated line = true := by
      rw [ignoreLines, negatedLines_ofText]
      simp
    rw [← marked, strict]
    cases (negatedLines (ignoreLines text)).isEmpty with
    | true => simp [Except.map]
    | false => simp [Except.map, Error.negatedPattern]
  · intro unlimited
    obtain ⟨after, written⟩ := Sink.writeAll_unlimited unlimited (warningsFor text)
    rw [written] at warn
    rw [warn, ignoreGlobs_withoutNegated]
    exact ⟨rfl, Sink.writeAll_lines written⟩
  · intro k next full fault listed accepted refused
    obtain ⟨inside, here⟩ := List.getElem?_eq_some_iff.mp listed
    have split : warningsFor text =
        (warningsFor text).take k ++ next :: (warningsFor text).drop (k + 1) := by
      rw [← here, ← List.drop_eq_getElem_cons inside, List.take_append_drop]
    have stopped := Sink.writeAll_refused accepted refused ((warningsFor text).drop (k + 1))
    rw [← split] at stopped
    rw [stopped] at warn
    rw [warn]
    exact ⟨rfl, Sink.writeAll_lines accepted⟩

theorem negation_policies_agree_sample :
    (ignoreGlobs .warn {} "b\n!a \r\n").1 =
        (ignoreGlobs .strict {} (withoutNegated "b\n!a \r\n")).1 ∧
      ∃ full : Sink,
        ignoreGlobs .warn ⟨[], some 60⟩ "!a\nb\n!c" =
          (.error (.io "write warning" (some (Path.ofString ".gitignore"))
            (some (.stream "writer full"))), full) ∧
        full.lines = ["Negated '.gitignore' pattern '!a' will be ignored.\n"] := by
  have warnings : warningsFor "!a\nb\n!c" =
      ["Negated '.gitignore' pattern '!a' will be ignored.",
        "Negated '.gitignore' pattern '!c' will be ignored."] := by decide +kernel
  have accepted : Sink.writeAll ⟨[], some 60⟩ ((warningsFor "!a\nb\n!c").take 1) =
      (none, ⟨["Negated '.gitignore' pattern '!a' will be ignored.\n"], some 9⟩) := by
    rw [warnings]
    rfl
  have stopped := (negation_policies_agree ⟨[], some 60⟩ "!a\nb\n!c").2.2.2 1 _ _ _
    (by rw [warnings]; rfl) accepted rfl
  exact ⟨((negation_policies_agree {} "b\n!a \r\n").2.2.1 rfl).1, _, stopped.1, rfl⟩

end Selection

end FormatLint
