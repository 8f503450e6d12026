import FormatLint.Report.Render
import FormatLint.Proofs.Text.Utf8

/-!
The exit status that reports stand for. A report for people is empty when there is nothing to
say; a report for tools is also empty when some file with a message has a path that is no text.
-/

namespace FormatLint

/-- A path is text when it is how some text is written. -/
theorem Path.text?_eq_none_iff (p : Path) : p.text? = none ↔ ∀ text, p ≠ Path.ofString text := by
  constructor
  · rintro unread text rfl
    rw [Path.text?, Path.ofString, Utf8.decode?_encode] at unread
    cases unread
  · intro noText
    cases read : p.text? with
    | none => rfl
    | some text =>
      have written : Path.ofString text = p := congrArg Path.mk (Utf8.encode_of_decode read)
      exact absurd written.symm (noText text)

theorem LintResult.toJson?_eq_none_iff (r : LintResult) :
    r.toJson? = none ↔ r.file.text? = none := by
  unfold toJson?
  split <;> simp_all

theorem LintResult.listToJson?_eq_none_iff (results : List LintResult) :
    listToJson? results = none ↔ ∃ r ∈ results, r.file.text? = none := by
  rw [listToJson?, Option.map_eq_none_iff]
  induction results with
  | nil => simp
  | cons r rest ih =>
    rw [List.mapM_cons]
    cases own : r.toJson? with
    | none =>
      have unread := r.toJson?_eq_none_iff.mp own
      simp [unread]
    | some value =>
      have read : r.file.text? ≠ none := fun unread => by
        rw [r.toJson?_eq_none_iff.mpr unread] at own
        cases own
      have later : (∃ other ∈ r :: rest, other.file.text? = none) ↔
          ∃ other ∈ rest, other.file.text? = none := by simp [read]
      rw [later, ← ih]
      cases rest.mapM toJson? <;> simp

namespace Report

theorem reported_eq_nil_iff (results : List LintResult) :
    reported results = [] ↔ ∀ r ∈ results, r.messages = [] := by
  simp [reported]

/-- A report for people ends in its summary, so that it is empty only when nothing is shown. -/
theorem stylish_eq_empty_iff (results : List LintResult) :
    stylish results = "" ↔ ∀ r ∈ results, r.messages = [] := by
  rw [← reported_eq_nil_iff, stylish]
  by_cases quiet : reported results = []
  · simp [quiet]
  · simp [quiet, summary]

/-- A value is written with at least its brackets, but a path that is no text stops the writing of
    the whole list. -/
theorem json_eq_empty_iff (results : List LintResult) :
    json results = "" ↔ (∀ r ∈ results, r.messages = []) ∨
      ∃ r ∈ results, r.messages ≠ [] ∧ r.file.text? = none := by
  have unwritten : LintResult.listToJson? (reported results) = none ↔
      ∃ r ∈ results, r.messages ≠ [] ∧ r.file.text? = none := by
    rw [LintResult.listToJson?_eq_none_iff]
    simp [reported, and_assoc]
  rw [← reported_eq_nil_iff, ← unwritten, json]
  by_cases quiet : reported results = []
  · simp [quiet]
  · cases written : LintResult.listToJson? (reported results) with
    | none => simp [quiet]
    | some value =>
      obtain ⟨items, -, rfl⟩ := Option.map_eq_some_iff.mp written
      simp [quiet, Json.compact, Json.chars]

theorem exitCode_eq_one_iff (rendered : String) : exitCode rendered = 1 ↔ rendered ≠ "" := by
  simp [exitCode]

/-- What the two reports and their exit statuses say about a list of results, for paths of any
    bytes. The report for people is faithful. The one for tools is faithful as long as every file
    with a message has a path that is text; one such file with another path empties the report and
    turns the status into success, whatever the other files have. -/
theorem status_of_results (results : List LintResult) :
    (Formatter.stylish.render results = "" ↔ ∀ r ∈ results, r.messages = []) ∧
    (Formatter.json.render results = "" ↔ (∀ r ∈ results, r.messages = []) ∨
      ∃ r ∈ results, r.messages ≠ [] ∧ ∀ text, r.file ≠ Path.ofString text) ∧
    (exitCode (Formatter.stylish.render results) = 1 ↔ ∃ r ∈ results, r.messages ≠ []) ∧
    (exitCode (Formatter.json.render results) = 1 ↔ (∃ r ∈ results, r.messages ≠ []) ∧
      ∀ r ∈ results, r.messages ≠ [] → ∃ text, r.file = Path.ofString text) := by
  have people : Formatter.stylish.render results = "" ↔ ∀ r ∈ results, r.messages = [] :=
    stylish_eq_empty_iff results
  have tools : Formatter.json.render results = "" ↔ (∀ r ∈ results, r.messages = []) ∨
      ∃ r ∈ results, r.messages ≠ [] ∧ ∀ text, r.file ≠ Path.ofString text := by
    rw [Formatter.render, json_eq_empty_iff]
    simp only [Path.text?_eq_none_iff]
  refine ⟨people, tools, ?_, ?_⟩
  · rw [exitCode_eq_one_iff, ne_eq, people]
    simp
  · rw [exitCode_eq_one_iff, ne_eq, tools]
    simp

/-- One unreadable file whose name is the byte `0xFF`: a failure for people, success for tools. -/
theorem unnamed_failure_is_success :
    let results : List LintResult := [⟨⟨[0xFF]⟩, [Message.failure "Cannot read file"], none⟩]
    (∃ r ∈ results, r.messages ≠ []) ∧
      exitCode (Formatter.stylish.render results) = 1 ∧
      Formatter.json.render results = "" ∧ exitCode (Formatter.json.render results) = 0 := by
  intro results
  have unread : (⟨[0xFF]⟩ : Path).text? = none := by decide
  have shown : ∃ r ∈ results, r.messages ≠ [] := ⟨_, List.mem_singleton_self _, by simp⟩
  have silent : Formatter.json.render results = "" :=
    (json_eq_empty_iff results).mpr (.inr ⟨_, List.mem_singleton_self _, by simp, unread⟩)
  refine ⟨shown, ?_, silent, ?_⟩
  · rw [exitCode_eq_one_iff, ne_eq]
    exact fun empty => by simpa [results] using (stylish_eq_empty_iff results).mp empty
  · rw [silent]
    rfl

end Report

end FormatLint
