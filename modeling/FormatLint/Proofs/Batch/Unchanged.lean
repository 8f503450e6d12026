import FormatLint.Proofs.Batch.InPlace

/-!
Files that come out as they were. The formatted text is held against the text of the file, but the
text of the linter is not: where the linter gives back what was there before the formatter, a file
has an output and is written although nothing about it changes.
-/

namespace FormatLint.Batch

section

variable {format : String → Path → String} {lint : String → Path → LintResult} {o : Options}
  {file : Path} {source : String} {programs : Programs} {world after : World}

/-- The text that is linted for a file. -/
def candidate (format : String → Path → String) (o : Options) (file : Path) (source : String) :
    String :=
  if o.check then source else format source file

/-- What a file with a text comes to. -/
def verdict (format : String → Path → String) (lint : String → Path → LintResult) (o : Options)
    (file : Path) (source : String) : LintResult :=
  let text := candidate format o file source
  { lint text file with
    file, output := reconcile source text (if o.check then none else (lint text file).output) }

/-- The text that the linter gives for a file is the one that was there before. -/
def Restores (format : String → Path → String) (lint : String → Path → LintResult) (o : Options)
    (file : Path) (source : String) : Prop :=
  o.check = false ∧ (lint (format source file) file).output = some source

/-- Only a fix can be the text that was there. -/
theorem reconcile_eq_source_iff (source formatted : String) (fixed : Option String) :
    reconcile source formatted fixed = some source ↔ fixed = some source := by
  cases fixed with
  | some text => rfl
  | none =>
    rw [reconcile]
    split <;> simp_all

theorem verdict_eq_source_iff :
    (verdict format lint o file source).output = some source ↔ Restores format lint o file source := by
  rw [verdict, Restores, candidate, reconcile_eq_source_iff]
  cases o.check <;> simp

/-- The work on a readable file asks the engines about it, and then writes what is to be written. -/
theorem processFile_pure (lint : String → Path → LintResult) (o : Options) (programs : Programs)
    (readable : world.files.readText file = .ok source) :
    ∃ asked : World, asked.files = world.files ∧
      (processFile (.ofPure format lint) o file programs).run world =
        ((do
          match ← Action.ofExcept (writing? o file source (verdict format lint o file source)) with
          | some w => w.perform
          | none => pure ()
          return verdict format lint o file source : Action LintResult) programs).run asked := by
  have looked : (readSource file programs).run world = (.ok (.ok source), world) := by
    rw [← readable]
    rfl
  have formats : ∃ mid : World, mid.files = world.files ∧
      (formatSource (.ofPure format lint) o file source programs).run world =
        (.ok (candidate format o file source), mid) := by
    rw [formatSource, candidate]
    cases o.check with
    | true => exact ⟨world, rfl, rfl⟩
    | false => exact ⟨{ world with requests := .format source file :: world.requests }, rfl, rfl⟩
  obtain ⟨mid, kept, formatted⟩ := formats
  have linted : (lintFormatted (.ofPure format lint) o file source (candidate format o file source)
      programs).run mid = (.ok (verdict format lint o file source),
        { mid with requests := .lint (candidate format o file source) file :: mid.requests }) := rfl
  refine ⟨{ mid with requests := .lint (candidate format o file source) file :: mid.requests },
    kept, ?_⟩
  rw [processFile, Action.run_bind_ok looked]
  dsimp only
  rw [Action.run_bind_ok formatted]
  exact Action.run_bind_ok linted

/-- Where the work on a readable file ends well, its result is its verdict, and what there is to
    write was written after the engines were asked. -/
theorem processFile_pure_ok {result : LintResult} (readable : world.files.readText file = .ok source)
    (ran : (processFile (.ofPure format lint) o file programs).run world = (.ok result, after)) :
    result = verdict format lint o file source ∧
      ∃ asked : World, asked.files = world.files ∧
        ((writing? o file source result = .ok none ∧ after = asked) ∨
          ∃ w, writing? o file source result = .ok (some w) ∧
            (w.perform programs).run asked = (.ok (), after)) := by
  obtain ⟨asked, kept, run⟩ := processFile_pure lint o programs readable
  rw [run] at ran
  obtain ⟨written, mid, settled, rest⟩ := Action.bind_ok ran
  obtain ⟨writes, rfl⟩ := Action.ofExcept_ok settled
  cases written with
  | none =>
    cases rest
    exact ⟨rfl, _, kept, .inl ⟨writes, rfl⟩⟩
  | some w =>
    obtain ⟨⟨⟩, last, performed, returned⟩ := Action.bind_ok rest
    cases returned
    exact ⟨rfl, _, kept, .inr ⟨w, writes, performed⟩⟩

theorem writing?_none (inPlace : o.outputDir = none) {result : LintResult} :
    writing? o file source result = .ok none ↔ o.writes = false ∨ result.output = none := by
  rw [writing?, inPlace]
  cases o.writes <;> cases result.output <;> simp

theorem writing?_some (inPlace : o.outputDir = none) {result : LintResult} {w : Writing} :
    writing? o file source result = .ok (some w) ↔
      o.writes = true ∧ ∃ text, result.output = some text ∧ w = ⟨file, text⟩ := by
  rw [writing?, inPlace]
  cases o.writes <;> cases result.output <;> simp [eq_comm]

end

/-- A readable file has an output that differs from its text, or no output, unless the linter gives
    back what was there. In place a file is written exactly if it has an output and writing is not
    turned off, so that a file without one stays as it is. -/
theorem output_differs_unless_restored (programs : Programs) (format : String → Path → String)
    (lint : String → Path → LintResult) (o : Options) (file : Path) (source : String)
    (world after : World) (result : LintResult)
    (readable : world.files.readText file = .ok source)
    (ran : (processFile (.ofPure format lint) o file programs).run world = (.ok result, after)) :
    ((∀ text, result.output = some text → text ≠ source) ↔ ¬ Restores format lint o file source) ∧
    (o.outputDir = none →
      ((o.writes = false ∨ result.output = none) ∧ after.files = world.files) ∨
      (o.writes = true ∧ ∃ text mid, result.output = some text ∧
        (text ≠ source ↔ ¬ Restores format lint o file source) ∧ mid.files = world.files ∧
        (Writing.perform ⟨file, text⟩ programs).run mid = (.ok (), after))) := by
  obtain ⟨rfl, asked, kept, wrote⟩ := processFile_pure_ok readable ran
  have differs (text : String) (output : (verdict format lint o file source).output = some text) :
      text ≠ source ↔ ¬ Restores format lint o file source := by
    rw [← verdict_eq_source_iff, output, Option.some.injEq]
  refine ⟨?_, ?_⟩
  · rw [← verdict_eq_source_iff]
    constructor
    · intro apart same
      exact apart source same rfl
    · intro apart text output same
      exact apart (same ▸ output)
  · intro inPlace
    rcases wrote with ⟨nothing, rfl⟩ | ⟨w, writes, performed⟩
    · exact .inl ⟨(writing?_none inPlace).mp nothing, kept⟩
    · obtain ⟨on, text, output, rfl⟩ := (writing?_some inPlace).mp writes
      exact .inr ⟨on, text, asked, output, differs text output, kept, performed⟩

/-- Takes the mark of one text back. -/
def fixBack (text : String) (_ : Path) : LintResult :=
  { file := ⟨[0x7A]⟩, output := if text = "x!" then some "x" else none }

/-- The work on one of the files `a` and `b`, in place. -/
def sampleWork (lint : String → Path → LintResult) (file : Path) : Except Error LintResult × World :=
  (processFile (.ofPure addMark lint) { relativeStem := ⟨[0x2F]⟩ } file fun _ => throw .notFound).run
    sampleWorld

/-- The file `b` is formatted to `y!` and fixed to `z`, which is written. -/
theorem output_differs_unless_restored_sample :
    (sampleWork fixOne ⟨[0x2F, 0x62]⟩).1 = .ok ⟨⟨[0x2F, 0x62]⟩, [], some "z"⟩ ∧
      ¬ Restores addMark fixOne { relativeStem := ⟨[0x2F]⟩ } ⟨[0x2F, 0x62]⟩ "y" ∧
      ∃ mid : World, mid.files = sampleWorld.files ∧
        (Writing.perform ⟨⟨[0x2F, 0x62]⟩, "z"⟩ fun _ => throw .notFound).run mid =
          (.ok (), (sampleWork fixOne ⟨[0x2F, 0x62]⟩).2) := by
  have readable : sampleWorld.files.readText ⟨[0x2F, 0x62]⟩ = .ok "y" := by cbv
  have result : (sampleWork fixOne ⟨[0x2F, 0x62]⟩).1 = .ok ⟨⟨[0x2F, 0x62]⟩, [], some "z"⟩ := by cbv
  have ran : sampleWork fixOne ⟨[0x2F, 0x62]⟩ =
      (.ok ⟨⟨[0x2F, 0x62]⟩, [], some "z"⟩, (sampleWork fixOne ⟨[0x2F, 0x62]⟩).2) :=
    Prod.ext result rfl
  obtain ⟨-, wrote⟩ := output_differs_unless_restored _ addMark fixOne
    { relativeStem := ⟨[0x2F]⟩ } ⟨[0x2F, 0x62]⟩ "y" sampleWorld _ _ readable ran
  rcases wrote rfl with ⟨off | missing, -⟩ | ⟨-, text, mid, output, differs, kept, performed⟩
  · cases off
  · cases missing
  · cases output
    exact ⟨result, differs.mp (by decide), mid, kept, performed⟩

/-- The file `a` is formatted to `x!` and fixed to `x`, which it was before. It has an output
    nevertheless, and it is written. -/
theorem restored_file_is_rewritten :
    sampleWorld.files.readText ⟨[0x2F, 0x61]⟩ = .ok "x" ∧
      (sampleWork fixBack ⟨[0x2F, 0x61]⟩).1 = .ok ⟨⟨[0x2F, 0x61]⟩, [], some "x"⟩ ∧
      sampleWorld.files.get? [[0x61]] = some (.file { content := "x".toUTF8, touched := false }) ∧
      (sampleWork fixBack ⟨[0x2F, 0x61]⟩).2.files.get? [[0x61]] =
        some (.file { content := "x".toUTF8, touched := true }) := by
  refine ⟨?_, ?_, ?_, ?_⟩
  · cbv
  · cbv
  · rfl
  · cbv

end FormatLint.Batch
