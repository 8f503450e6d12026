import FormatLint.Proofs.Batch.Underway
import FormatLint.Proofs.Batch.Write
import FormatLint.Proofs.FileSystem.Holding
import Mathlib

/-!
Batches that work on their files in place, with engines that are functions. Whatever order the tasks
take their turns in, each file ends as if it had been alone: its result is that of the text it had
before the batch, and the files with an output, and only they, hold it.
-/

namespace FormatLint

namespace Batch

/-- The text that results give to the file at a place. -/
def newText? (fs : FileSystem) (results : List LintResult) (place : Place) : Option String :=
  results.findSome? fun result => if fs.place? result.file = some place then result.output else none

section

variable {format : String → Path → String} {lint : String → Path → LintResult} {fs : FileSystem}
  {paths : List Path} {stem : Path}

/-- Only a file that can be read is given a text. -/
theorem outcome_output {file : Path} {text : String}
    (given : (outcome format lint fs file).output = some text) :
    ∃ place data, fs.resolve true file = .ok (.found place (.file data)) := by
  rw [outcome] at given
  split at given
  · cases given
  · rename_i source read
    rw [FileSystem.readText, FileSystem.readBytes] at read
    cases seen : fs.stat file with
    | error fault =>
      rw [seen] at read
      cases read
    | ok found =>
      obtain ⟨place, node⟩ := found
      rw [seen] at read
      cases node with
      | file data => exact ⟨place, data, FileSystem.stat_iff.mp seen⟩
      | dir entries => cases read
      | link target => cases read

theorem turn_linted (file : Path) (source : String) (result : LintResult) (engines : Engines) :
    (Stage.linted source result).turn engines { relativeStem := stem } file =
      match result.output with
      | none => pure (.done result)
      | some text => Writing.perform ⟨file, text⟩ >>= fun _ => pure (.done result) := by
  have target : writing? { relativeStem := stem } file source result =
      .ok (result.output.map fun text => ⟨file, text⟩) := by
    simp only [writing?, Options.writes]
    cases result.output <;> rfl
  rw [Stage.turn, target]
  cases result.output <;> rfl

/-- The files with the outputs of some results. -/
def Renewed (fs : FileSystem) (results : List LintResult) (files : FileSystem) : Prop :=
  files = fs.holding (newText? fs results)

/-- Results of other files give no text to the file at a place. -/
theorem newText?_others {file : Path} {place : Place} {results : List LintResult}
    (unaliased : fs.Unaliased paths) (listed : file ∈ paths) (others : Others paths file results)
    (leads : fs.place? file = some place) : newText? fs results place = none := by
  rw [newText?, List.findSome?_eq_none_iff]
  intro result member
  obtain ⟨inside, apart⟩ := others result member
  rw [if_neg]
  intro same
  exact apart (unaliased.apart _ inside _ listed place same leads)

/-- A result without an output changes no file. -/
theorem newText?_without {before after : List LintResult} {result : LintResult}
    (output : result.output = none) :
    newText? fs (before ++ result :: after) = newText? fs (before ++ after) := by
  funext place
  simp only [newText?, List.findSome?_append, List.findSome?_cons, output, ite_self]

/-- What an unfinished task writes takes the place of its file. -/
theorem perform_inPlace {programs : Programs} {world next : World} {file : Path} {text : String}
    {place : Place} {data : FileData} (unaliased : fs.Unaliased paths)
    (normal : ∀ p ∈ paths, ∃ names, (∀ name ∈ names, Path.IsName name) ∧ p = Path.rooted names)
    {text? : Place → Option String} (written : world.files = fs.holding text?)
    (quiet : text? place = none) (listed : file ∈ paths)
    (resolved : fs.resolve true file = .ok (.found place (.file data)))
    (ran : (Writing.perform ⟨file, text⟩ programs).run world = (.ok (), next)) :
    next.files = world.files.put place (.file ⟨text.toUTF8, data.mode, true⟩) := by
  have found : world.files.resolve false file = .ok (.found place (.file data)) := by
    rw [written, FileSystem.resolve_holding, unaliased.direct _ listed place _ resolved]
    simp [Except.map, Node.mapFiles, FileSystem.renewed, quiet]
  obtain ⟨names, proper, rfl⟩ := normal _ listed
  obtain ⟨init, last, dir, entries, rfl, rfl, directory, held⟩ :=
    FileSystem.resolve_file_parent proper found
  have properInit : ∀ n ∈ init, Path.IsName n := fun n member =>
    proper n (List.mem_append_left _ member)
  have isName := proper last (by simp)
  have parent : Writing.directory ⟨Path.rooted (init ++ [last]), text⟩ = Path.rooted init := by
    rw [Writing.directory, Path.parent?_rooted proper]
    rfl
  obtain ⟨mid, dir', entries', mode, made, directory', -, kept, rfl⟩ :=
    Writing.perform_ok isName (Path.rooted_join properInit isName).symm parent ran
  rw [FileAction.makeDirectories_existing rfl directory] at made
  cases made
  rw [directory] at directory'
  cases directory'
  rw [kept (by simp [held]), held]
  rfl

/-- Tasks that work in place do not get in each other's way. -/
theorem independent_inPlace {programs : Programs} (unaliased : fs.Unaliased paths)
    (named : fs.root.WellNamed)
    (normal : ∀ p ∈ paths, ∃ names, (∀ name ∈ names, Path.IsName name) ∧ p = Path.rooted names) :
    Independent format lint programs { relativeStem := stem } fs paths (Renewed fs) := by
  refine ⟨?_, ?_, ?_, ?_⟩
  · exact fs.holding_nothing.symm
  · intro results files file listed others written
    rw [show files = _ from written]
    apply FileSystem.readText_holding
    intro place leads
    exact newText?_others unaliased listed others leads
  · intro before after files file fault listed unread written
    have output : (outcome format lint fs file).output = none := by rw [outcome, unread]
    rw [Renewed, newText?_without output]
    exact written
  · intro before after world next file source stage listed others read written ran
    rw [turn_linted] at ran
    cases output : (outcome format lint fs file).output with
    | none =>
      rw [output] at ran
      cases ran
      rw [Renewed, newText?_without output]
      exact written
    | some text =>
      rw [output] at ran
      obtain ⟨⟨⟩, mid, wrote, returned⟩ := Action.bind_ok ran
      cases returned
      obtain ⟨place, data, resolved⟩ := outcome_output output
      have leads := FileSystem.place?_iff.mpr ⟨_, resolved⟩
      have quiet := newText?_others unaliased listed others leads
      have put := perform_inPlace unaliased normal written quiet listed resolved wrote
      rw [show world.files = _ from written] at put
      rw [Renewed, put]
      apply FileSystem.put_holding named (FileSystem.resolve_found resolved)
      · rw [newText?, List.findSome?_append, Option.or_eq_none_iff] at quiet
        simp only [newText?, List.findSome?_append, List.findSome?_cons, outcome_file, leads, if_true,
          output, quiet.1, Option.none_or]
      · intro other apart
        have elsewhere : ¬ fs.place? file = some other := by
          rw [leads]
          simpa using Ne.symm apart
        simp only [newText?, List.findSome?_append, List.findSome?_cons, outcome_file,
          if_neg elsewhere]

/-- The end of a batch whose tasks had all their turns. -/
theorem settles {world : World} {programs : Programs} {order : List Nat} (distinct : paths.Nodup)
    (unaliased : world.files.Unaliased paths) (named : world.files.root.WellNamed)
    (normal : ∀ p ∈ paths, ∃ names, (∀ name ∈ names, Path.IsName name) ∧ p = Path.rooted names)
    (complete : ∀ i < paths.length, 4 ≤ order.count i)
    (succeeds : ∀ task ∈ ((Running.start paths world).turns programs (.ofPure format lint)
      { relativeStem := stem } order).tasks, ∀ e, task.stage ≠ .failed e) :
    ∃ after : World,
      (Running.start paths world).turns programs (.ofPure format lint) { relativeStem := stem } order =
        ⟨paths.map fun file => { file, stage := .done (outcome format lint world.files file) }, after⟩ ∧
      after.files =
        world.files.holding (newText? world.files (paths.map (outcome format lint world.files))) :=
  (independent_inPlace unaliased named normal).settles distinct rfl complete succeeds

end

/-- Two files `a` and `b` in the root, which is where the batch starts. -/
def sampleWorld : World where
  files :=
    { root := .dir [([0x61], .file { content := "x".toUTF8 }), ([0x62], .file { content := "y".toUTF8 })]
      cwd := ⟨[0x2F]⟩ }

def addMark (text : String) (_ : Path) : String := text ++ "!"

/-- Reports a path of its own and fixes one text. -/
def fixOne (text : String) (_ : Path) : LintResult :=
  { file := ⟨[0x7A]⟩, output := if text = "y!" then some "z" else none }

end Batch

end FormatLint
