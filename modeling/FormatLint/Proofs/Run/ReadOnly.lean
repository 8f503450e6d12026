import FormatLint.Proofs.Run.Rejection
import Mathlib

/-!
Runs that only report. Nothing is formatted, fixed or written, on whatever way the run ends; what it
needs on disk for its engines is gone afterwards, apart from the directories of the linter's cache.
-/

namespace FormatLint

open FormatLint.Action

/-- Commands that show something and change nothing. -/
inductive Command.ReportsOnly : Command → Prop
  | lint (args : RunArgs) : ReportsOnly (.lint args)
  | showLintConfig (args : RunArgs) : ReportsOnly (.showLintConfig args)
  | showFormatConfig (args : RunArgs) : ReportsOnly (.showFormatConfig args)

/-- No program changes the files. -/
def Programs.LeaveFiles (programs : Programs) : Prop :=
  ∀ invocation fs, ((programs invocation).run fs).2 = fs

/-- What a command that only reports may start with the files `fs`: the evaluation of a module, and
    the linter without a request for fixes, on what a file holds. -/
inductive Permitted (fs : FileSystem) : Command → Invocation → Prop
  | evaluation (command : Command) (file : Path) : Permitted fs command (ConfigFile.evaluation file)
  | linting (args : RunArgs) (program config root file : Path) (text : String)
    (onDisk : fs.readText file = .ok text) :
    Permitted fs (.lint args) {
      program
      arguments := [Utf8.encode "--config", config.bytes, Utf8.encode "--stdin",
        Utf8.encode "--stdin-filename", file.bytes, Utf8.encode "--format", Utf8.encode "json",
        Utf8.encode "--no-warn-ignored"]
      directory := some root
      input := text.toUTF8 }

/-- Programs that do the same where they are permitted, and elsewhere whatever they like. -/
def Programs.Agree (programs others : Programs) (command : Command) : Prop :=
  ∀ fs invocation, Permitted fs command invocation →
    (others invocation).run fs = (programs invocation).run fs

section Blind

namespace Action

/-- Other programs make no difference. -/
def Blind (programs others : Programs) (a : Action α) : Prop :=
  ∀ world, (a others).run world = (a programs).run world

variable {programs others : Programs} {a : Action α} {f : α → Action β}

theorem blind_pure (value : α) : Blind programs others (pure value) := fun _ => rfl

theorem blind_throw (e : Error) : Blind programs others (throw e : Action α) := fun _ => rfl

theorem bind_same {world : World} (same : (a others).run world = (a programs).run world)
    (rest : ∀ value, Blind programs others (f value)) :
    ((a >>= f) others).run world = ((a >>= f) programs).run world := by
  rw [run_bind, run_bind, same]
  cases (a programs).run world with
  | mk result mid =>
    cases result with
    | error e => rfl
    | ok value => exact rest value mid

theorem Blind.bind (blind : Blind programs others a) (rest : ∀ value, Blind programs others (f value)) :
    Blind programs others (a >>= f) := fun world => bind_same (blind world) rest

theorem blind_ofExcept (result : Except Error α) : Blind programs others (ofExcept result) := by
  cases result with
  | ok value => exact blind_pure value
  | error e => exact blind_throw e

theorem blind_read (f : FileSystem → Except Error α) : Blind programs others (read f) :=
  fun world => by rw [run_read, run_read]

theorem blind_warning (f : FileSystem → Sink → Except Error α × Sink) :
    Blind programs others (warning f) :=
  fun world => by rw [run_warning, run_warning]

theorem blind_absolute (wrap : SystemFault → Error) (p : Path) :
    Blind programs others (absolute wrap p) :=
  fun world => by rw [run_absolute, run_absolute]

theorem blind_change (wrap : SystemFault → Error) (a : FileAction α) :
    Blind programs others (change wrap a) :=
  fun world => by rw [run_change, run_change]

theorem run_start (engine : String) (invocation : Invocation) (programs : Programs) (world : World) :
    (start engine invocation programs).run world =
      (((programs invocation).run world.files).1.mapError
          (Error.notStarted engine invocation.program),
        { world with files := ((programs invocation).run world.files).2 }) := by
  have started : (start engine invocation programs).run world =
      (change (Error.notStarted engine invocation.program) (programs invocation) programs).run world :=
    rfl
  rw [started, run_change]

theorem blind_option_mapM {f : α → Action β} (each : ∀ value, Blind programs others (f value))
    (given : Option α) : Blind programs others (given.mapM f) := by
  cases given with
  | none => exact blind_pure none
  | some value => exact (each value).bind fun found => blind_pure (some found)

theorem blind_list_mapM {f : α → Action β} (each : ∀ value, Blind programs others (f value))
    (values : List α) : Blind programs others (values.mapM f) := by
  induction values with
  | nil => exact blind_pure []
  | cons value values ih =>
    rw [List.mapM_cons]
    exact (each value).bind fun first => ih.bind fun rest => blind_pure (first :: rest)

/-- The file is removed whether its use succeeds or fails. -/
theorem run_withTemporary (p : Path) (use : Path → Action α) (programs : Programs) (world : World) :
    (withTemporary p use programs).run world =
      (((use p programs).run world).1,
        { ((use p programs).run world).2 with
          files := ((FileAction.remove p).run ((use p programs).run world).2.files).2 }) := by
  rw [withTemporary, run_tryCatch, run_bind]
  cases (use p programs).run world with
  | mk result mid => cases result <;> rfl

theorem withTemporary_ok {p : Path} {use : Path → Action α} {world after : World} {value : α}
    (ran : (withTemporary p use programs).run world = (.ok value, after)) :
    ∃ mid, (use p programs).run world = (.ok value, mid) := by
  rw [run_withTemporary] at ran
  exact ⟨_, Prod.ext (Prod.mk.inj ran).1 rfl⟩

theorem blind_withTemporary {p : Path} {use : Path → Action α}
    (blind : Blind programs others (use p)) : Blind programs others (withTemporary p use) :=
  fun world => by rw [run_withTemporary, run_withTemporary, blind world]

end Action

variable {programs others : Programs} {command : Command}

theorem blind_evaluate (agree : programs.Agree others command) (p : Path) :
    Blind programs others (ConfigFile.evaluate p) := by
  have started (file : Path) : Blind programs others
      (start ConfigFile.evaluator (ConfigFile.evaluation file)) := fun world => by
    rw [run_start, run_start, agree world.files _ (.evaluation command file)]
  refine (blind_absolute _ p).bind fun file => (started file).bind fun output => ?_
  dsimp only
  split
  · exact blind_throw _
  · cases Utf8.read? output.stdout with
    | some text => exact blind_pure text
    | none => exact blind_throw _

theorem blind_load (agree : programs.Agree others command) (decode : View → Datum → Decoded α)
    (p : Path) : Blind programs others (ConfigFile.load decode p) := by
  rw [ConfigFile.load]
  split
  · exact blind_read _
  · exact blind_read _
  · exact blind_read _
  · exact (blind_evaluate agree p).bind fun text => blind_ofExcept _

theorem blind_lintConfig (agree : programs.Agree others command) (s : Settings) :
    Blind programs others (lintConfig s) := by
  refine (blind_ofExcept _).bind fun _ => ?_
  split
  · exact (blind_read _).bind fun _ => blind_pure _
  · refine (blind_option_mapM (blind_load agree _) _).bind fun custom => ?_
    refine (blind_option_mapM (blind_load agree _) _).bind fun ruleSets => ?_
    exact (blind_read _).bind fun project => (blind_ofExcept _).bind fun _ => blind_pure _

theorem blind_formatOptions (agree : programs.Agree others command) (s : Settings) :
    Blind programs others (formatOptions s) :=
  (blind_option_mapM (blind_load agree _) _).bind fun _ => blind_pure _

theorem Linter.blind_create (program root : Path) (config : LintConfig) (fix : Bool) :
    Blind programs others (create program root config fix) := by
  refine (blind_absolute _ root).bind fun q => ?_
  refine Blind.bind ?_ fun text => ?_
  · cases config with
    | entries es => exact blind_pure _
    | module p => exact (blind_absolute _ p).bind fun _ => blind_pure _
  · refine (blind_change _ _).bind fun _ => (blind_change _ _).bind fun _ => ?_
    exact (blind_change _ _).bind fun _ => blind_pure _

theorem FormatProgram.blind_create (program : Path) (options : Members) :
    Blind programs others (create program options) :=
  (blind_change _ _).bind fun _ => (blind_change _ _).bind fun _ => blind_pure _

end Blind

section Watched

/-- A text that is linted is what its file held, if that could be read. -/
def Request.Truthful (fs : FileSystem) (request : Request) : Prop :=
  ∃ text file, request = .lint text file ∧ ∀ old, fs.readText file = .ok old → old = text

/-- Nothing is printed, directories are all that is new and `ps` lead to them, and only the linter
    is asked, about what is on disk. -/
structure Watched (ps : List Path) (world after : World) : Prop where
  out : after.out = world.out
  files : world.files.Grows after.files (after.files.LedTo ps)
  asked : ∃ asked, after.requests = asked ++ world.requests ∧
    ∀ request ∈ asked, request.Truthful world.files

theorem FileSystem.readText_iff {fs : FileSystem} {p : Path} {text : String} :
    fs.readText p = .ok text ↔ ∃ place data, fs.resolve true p = .ok (.found place (.file data)) ∧
      Utf8.read? data.content = some text := by
  simp only [← stat_iff]
  rw [readText, readBytes]
  cases fs.stat p with
  | error fault => simp [bind, Except.bind]
  | ok found =>
    obtain ⟨place, node⟩ := found
    cases node with
    | file data =>
      cases read : Utf8.read? data.content <;>
        simp [bind, Except.bind, pure, Except.pure, throw, throwThe, MonadExceptOf.throw, read]
    | dir entries => simp [bind, Except.bind, throw, throwThe, MonadExceptOf.throw]
    | link target => simp [bind, Except.bind, throw, throwThe, MonadExceptOf.throw]

/-- What is kept where it was reads as before. -/
theorem FileSystem.readText_kept {fs wide : FileSystem} {p : Path} {text : String}
    (seen : wide.cwd = fs.cwd)
    (kept : ∀ place o, fs.outlineAt place = some o → wide.outlineAt place = some o)
    (read : fs.readText p = .ok text) : wide.readText p = .ok text := by
  obtain ⟨place, data, leads, decoded⟩ := readText_iff.mp read
  have larger : fs.Extends wide := by
    intro q kind held
    rw [Node.kindAt_eq_outlineAt] at held ⊢
    obtain ⟨o, there, same⟩ := Option.map_eq_some_iff.mp held
    rw [show wide.root.outlineAt q = some o from kept q o there]
    exact congrArg some same
  obtain ⟨node, again⟩ := larger.resolve seen leads
  have still : wide.get? place = some (.file data) :=
    Node.outlineAt_file.mp (kept _ _ (Node.outlineAt_file.mpr (resolve_found leads)))
  rw [resolve_found again] at still
  cases still
  exact readText_iff.mpr ⟨place, data, again, decoded⟩

theorem Request.Truthful.before {fs wide : FileSystem} {request : Request}
    (truthful : request.Truthful wide) (seen : wide.cwd = fs.cwd)
    (kept : ∀ place o, fs.outlineAt place = some o → wide.outlineAt place = some o) :
    request.Truthful fs := by
  obtain ⟨text, file, same, told⟩ := truthful
  exact ⟨text, file, same, fun old read => told old (FileSystem.readText_kept seen kept read)⟩

namespace Watched

variable {ps : List Path} {world mid after : World}

theorem warned (left : ∃ err, after = { world with err }) : Watched ps world after := by
  obtain ⟨err, rfl⟩ := left
  exact ⟨rfl, .refl _ _, [], rfl, by simp⟩

theorem trans (first : Watched ps world mid) (second : Watched ps mid after) :
    Watched ps world after := by
  obtain ⟨early, asked, told⟩ := first.asked
  obtain ⟨late, asked', told'⟩ := second.asked
  refine ⟨second.out.trans first.out,
    (first.files.mono fun place => second.files.ledTo).trans second.files,
    late ++ early, by rw [asked', asked, List.append_assoc], ?_⟩
  intro request member
  rcases List.mem_append.mp member with member | member
  · exact (told' request member).before first.files.seen fun place o => first.files.kept
  · exact told request member

end Watched

namespace Action

/-- On whatever way it ends, its run is watched. -/
def Watches (programs : Programs) (ps : List Path) (a : Action α) : Prop :=
  ∀ world, Watched ps world ((a programs).run world).2

variable {programs : Programs} {ps : List Path} {a : Action α} {f : α → Action β}

theorem Calm.watches (calm : Calm programs a) : Watches programs ps a :=
  fun world => .warned (calm world)

theorem Watches.bind (watches : Watches programs ps a)
    (rest : ∀ value, Watches programs ps (f value)) : Watches programs ps (a >>= f) := by
  intro world
  have first := watches world
  rw [run_bind]
  cases ran : (a programs).run world with
  | mk result mid =>
    rw [ran] at first
    cases result with
    | error e => exact first
    | ok value => exact first.trans (rest value mid)

theorem watches_list_mapM {f : α → Action β} (each : ∀ value, Watches programs ps (f value))
    (values : List α) : Watches programs ps (values.mapM f) := by
  induction values with
  | nil => exact (calm_pure []).watches
  | cons value values ih =>
    rw [List.mapM_cons]
    exact (each value).bind fun first => ih.bind fun rest => (calm_pure (first :: rest)).watches

/-- What holds of each result that the parts may give holds of all results of a list. -/
theorem mapM_ok_forall {f : α → Action β} {good : β → Prop}
    (each : ∀ value world result after, (f value programs).run world = (.ok result, after) →
      good result)
    {values : List α} {world after : World} {results : List β}
    (ran : (values.mapM f programs).run world = (.ok results, after)) :
    ∀ result ∈ results, good result := by
  induction values generalizing world after results with
  | nil =>
    cases ran
    simp
  | cons value values ih =>
    rw [List.mapM_cons] at ran
    obtain ⟨first, mid, ranFirst, afterFirst⟩ := bind_ok ran
    obtain ⟨rest, last, ranRest, returned⟩ := bind_ok afterFirst
    cases returned
    exact List.forall_mem_cons.mpr ⟨each _ _ _ _ ranFirst, ih ranRest⟩

end Action

end Watched

section Batches

namespace Batch

variable {programs others : Programs} {engines : Engines} {o : Options} {file : Path}
  {ps : List Path}

/-- Report-only linting drops the fix. -/
theorem lintFormatted_check (check : o.check = true) (source : String) (programs : Programs)
    (world : World) :
    (lintFormatted engines o file source source programs).run world =
      match (engines.lint source file programs).run
        { world with requests := .lint source file :: world.requests } with
      | (.ok result, after) => (.ok { result with file, output := none }, after)
      | (.error e, after) => (.error e, after) := by
  have asked : (Action.ask (.lint source file) programs).run world =
      (.ok (), { world with requests := .lint source file :: world.requests }) := rfl
  have dropped (fixed : Option String) :
      reconcile source source (if o.check then none else fixed) = none := by simp [check, reconcile]
  rw [lintFormatted, run_bind_ok asked, run_bind]
  cases (engines.lint source file programs).run
    { world with requests := .lint source file :: world.requests } with
  | mk result after =>
    cases result with
    | error e => rfl
    | ok result =>
      dsimp only
      rw [dropped]
      rfl

/-- All that report-only work on a file does: its text is linted as it stands on disk, and nothing
    is written. -/
theorem processFile_check (check : o.check = true) (programs : Programs) (world : World) :
    (processFile engines o file programs).run world =
      match world.files.readText file with
      | .error fault => (.ok (unreadable file fault), world)
      | .ok source => (lintFormatted engines o file source source programs).run world := by
  have looked : (readSource file programs).run world = (.ok (world.files.readText file), world) := rfl
  rw [processFile, run_bind_ok looked]
  cases world.files.readText file with
  | error fault => rfl
  | ok source =>
    have formatted : (formatSource engines o file source programs).run world = (.ok source, world) := by
      rw [formatSource, if_pos check]
      rfl
    have kept (r : LintResult) : writing? o file source r = .ok none := by
      rw [writing?, Options.writes, check]
      rfl
    dsimp only
    rw [run_bind_ok formatted, run_bind]
    cases (lintFormatted engines o file source source programs).run world with
    | mk result after =>
      cases result with
      | error e => rfl
      | ok result =>
        dsimp only
        rw [kept]
        rfl

theorem output_processFile (check : o.check = true) {world after : World} {result : LintResult}
    (ran : (processFile engines o file programs).run world = (.ok result, after)) :
    result.output = none := by
  rw [processFile_check check] at ran
  split at ran
  · cases ran
    rfl
  · rw [lintFormatted_check check] at ran
    split at ran
    · cases ran
      rfl
    · cases ran

/-- Report-only results carry no text, whatever the linter gave. -/
theorem output_formatAndLint (check : o.check = true) {files : List Path} {world after : World}
    {results : List LintResult}
    (ran : (formatAndLint engines o files programs).run world = (.ok results, after)) :
    ∀ r ∈ results, r.output = none := by
  have works {mid : World}
      (ran : ((files.mapM located >>= processFiles engines o) programs).run mid = (.ok results, after)) :
      ∀ r ∈ results, r.output = none := by
    obtain ⟨paths, first, -, processed⟩ := bind_ok ran
    obtain ⟨⟨⟩, second, -, ranAll⟩ := bind_ok processed
    exact mapM_ok_forall (fun _ _ _ _ => output_processFile check) ranAll
  rw [formatAndLint] at ran
  dsimp only at ran
  split at ran
  · obtain ⟨⟨⟩, mid, thrown, -⟩ := bind_ok ran
    cases thrown
  · exact works ran

theorem watches_processFile (check : o.check = true)
    (calm : ∀ text file, Calm programs (engines.lint text file)) (file : Path) :
    Watches programs ps (processFile engines o file) := by
  intro world
  rw [processFile_check check]
  cases read : world.files.readText file with
  | error fault => exact .warned ⟨world.err, rfl⟩
  | ok source =>
    dsimp only
    rw [lintFormatted_check check]
    have left : ∀ {after : World} {result : Except Error LintResult},
        (engines.lint source file programs).run
          { world with requests := .lint source file :: world.requests } = (result, after) →
        Watched ps world after := by
      intro after result ran
      obtain ⟨err, rfl⟩ := (calm source file).run ran
      refine ⟨rfl, .refl _ _, [.lint source file], rfl, ?_⟩
      intro request member
      rw [List.mem_singleton.mp member]
      refine ⟨source, file, rfl, fun old again => ?_⟩
      rw [read] at again
      exact (Except.ok.inj again).symm
    split
    · rename_i ran
      exact left ran
    · rename_i ran
      exact left ran

theorem watches_formatAndLint (check : o.check = true)
    (calm : ∀ text file, Calm programs (engines.lint text file)) (files : List Path) :
    Watches programs ps (formatAndLint engines o files) := by
  have works : Watches programs ps (files.mapM located >>= processFiles engines o) := by
    refine (calm_list_mapM ?_ files).watches.bind fun paths => ?_
    · exact fun file => (calm_absolute _ file).bind fun _ => calm_pure _
    · exact (calm_ofExcept _).watches.bind fun _ =>
        watches_list_mapM (watches_processFile check calm) paths
  rw [formatAndLint]
  dsimp only
  split
  · exact (calm_throw _).watches.bind fun _ => works
  · exact works

/-- A linter that is not asked for fixes is only started where that is permitted. -/
theorem blind_processFile {args : RunArgs} (agree : programs.Agree others (.lint args))
    (check : o.check = true) {linter : Linter} (noFix : linter.fix = false)
    (lints : engines.lint = linter.lint) (file : Path) :
    Blind programs others (processFile engines o file) := by
  intro world
  rw [processFile_check check, processFile_check check]
  cases read : world.files.readText file with
  | error fault => rfl
  | ok source =>
    have permitted : Permitted world.files (.lint args) {
        program := linter.program, arguments := linter.arguments file
        directory := some linter.root, input := source.toUTF8 } := by
      rw [Linter.arguments, noFix]
      exact .linting args linter.program linter.configPath linter.root file source read
    dsimp only
    rw [lintFormatted_check check, lintFormatted_check check, lints]
    have same : (linter.lint source file others).run
        { world with requests := .lint source file :: world.requests } =
        (linter.lint source file programs).run
          { world with requests := .lint source file :: world.requests } := by
      refine bind_same ?_ fun output => blind_ofExcept _
      rw [run_start, run_start, agree _ _ permitted]
    rw [same]

theorem blind_formatAndLint {args : RunArgs} (agree : programs.Agree others (.lint args))
    (check : o.check = true) {linter : Linter} (noFix : linter.fix = false)
    (lints : engines.lint = linter.lint) (files : List Path) :
    Blind programs others (formatAndLint engines o files) := by
  have works : Blind programs others (files.mapM located >>= processFiles engines o) := by
    refine (blind_list_mapM ?_ files).bind fun paths => ?_
    · exact fun file => (blind_absolute _ file).bind fun _ => blind_pure _
    · exact (blind_ofExcept _).bind fun _ =>
        blind_list_mapM (blind_processFile agree check noFix lints) paths
  rw [formatAndLint]
  dsimp only
  split
  · exact (blind_throw _).bind fun _ => works
  · exact works

end Batch

end Batches

section Temporary

variable {programs others : Programs} {ps : List Path}

/-- A temporary file that could be made can be filled. -/
theorem FileAction.createTemporary_fills {fs mid : FileSystem} {p temporary : Path}
    {lead trail : String} (longer : 2 < (Utf8.encode lead).length)
    (plainLead : Path.slash ∉ Utf8.encode lead) (plainTrail : Path.slash ∉ Utf8.encode trail)
    (created : (createTemporary p lead trail).run fs = (.ok temporary, mid)) (content : ByteArray) :
    ∃ files, (fill temporary content).run mid = (.ok (), files) := by
  have absent : ∃ place missing, fs.resolve false temporary = .ok (.absent place missing) := by
    rcases createTemporary_cases fs p lead trail with ⟨dir, entries, -, same⟩ | ⟨fault, failed⟩
    · rw [same] at created
      obtain ⟨-, -, place, missing, -, absent, rfl, -⟩ := createPrivate_ok created
      exact ⟨place, missing, absent⟩
    · rw [failed] at created
      cases created
  obtain ⟨place, missing, absent⟩ := absent
  obtain ⟨dir, entries, name, rfl, staged⟩ :=
    FileSystem.Staged.of_createTemporary longer plainLead plainTrail created
  have passed := (FileSystem.resolve_ok absent).1
  have short : name.length ≤ nameLimit := by
    rw [FileSystem.resolve_join staged.isName passed staged.directory (.inl rfl),
      FileSystem.named] at absent
    split at absent
    · cases absent
    · omega
  exact ⟨_, update_file (staged.resolve_temporary passed short) _⟩

theorem FileAction.createTemporary_error {fs after : FileSystem} {p : Path} {lead trail : String}
    {fault : SystemFault} (ran : (createTemporary p lead trail).run fs = (.error fault, after)) :
    after = fs := by
  rcases createTemporary_cases fs p lead trail with ⟨dir, entries, -, same⟩ | ⟨other, failed⟩
  · rw [same] at ran
    exact createPrivate_error ran
  · rw [failed] at ran
    cases ran
    rfl

/-- A temporary file is made and filled, or nothing is done. -/
theorem Action.stage_cases {world after : World} {result : Except Error β} {p : Path}
    {lead trail : String} {wrap : SystemFault → Error} {wrap' : Path → SystemFault → Error}
    {content : ByteArray} {f : Path → β} (longer : 2 < (Utf8.encode lead).length)
    (plainLead : Path.slash ∉ Utf8.encode lead) (plainTrail : Path.slash ∉ Utf8.encode trail)
    (ran : ((change wrap (FileAction.createTemporary p lead trail) >>= fun temporary =>
      change (wrap' temporary) (FileAction.fill temporary content) >>= fun _ =>
        pure (f temporary)) programs).run world = (result, after)) :
    (∃ e, result = .error e ∧ after = world) ∨
      ∃ temporary dir entries name held, result = .ok (f temporary) ∧
        after = { world with files := after.files } ∧
        world.files.Staged p dir entries name after.files held ∧
        after.files.resolve false temporary = .ok (.found (dir ++ [name]) (.file held)) := by
  rcases bind_cases ran with ⟨e, rfl, failed⟩ | ⟨temporary, mid, opening, afterOpen⟩
  · rw [run_change] at failed
    cases made : (FileAction.createTemporary p lead trail).run world.files with
    | mk outcome files =>
      rw [made] at failed
      cases outcome with
      | ok temporary => cases failed
      | error fault =>
        cases failed
        exact .inl ⟨_, rfl, by rw [FileAction.createTemporary_error made]⟩
  · obtain ⟨empty, created, rfl⟩ := change_ok opening
    obtain ⟨files, filled⟩ :=
      FileAction.createTemporary_fills longer plainLead plainTrail created content
    have filling : (change (wrap' temporary) (FileAction.fill temporary content) programs).run
        { world with files := empty } = (.ok (), { world with files }) := by
      rw [run_change, filled]
      rfl
    rw [run_bind_ok filling] at afterOpen
    cases afterOpen
    obtain ⟨dir, entries, name, held, staged, found⟩ :=
      FileSystem.Staged.of_filled longer plainLead plainTrail created filled
    exact .inr ⟨temporary, dir, entries, name, held, rfl, rfl, staged, found⟩

/-- What was left by the use of a temporary file is left when the file is gone. -/
theorem Watched.removed {fs : FileSystem} {p temporary : Path} {dir : Place}
    {entries : List (Bytes × Node)} {name : Bytes} {held : FileData} {ready last : World}
    (staged : fs.Staged p dir entries name ready.files held)
    (found : ready.files.resolve false temporary = .ok (.found (dir ++ [name]) (.file held)))
    (watched : Watched ps ready last) :
    Watched ps { ready with files := fs }
      { last with files := ((FileAction.remove temporary).run last.files).2 } := by
  have seen : ready.files.cwd = fs.cwd := by
    rw [staged.files_eq]
    rfl
  obtain ⟨node, again⟩ := watched.files.larger.resolve watched.files.seen found
  obtain ⟨grows, kinds⟩ := staged.removed watched.files
  obtain ⟨asked, requests, told⟩ := watched.asked
  refine ⟨watched.out, ?_, asked, requests, fun request member => ?_⟩
  · rw [FileAction.remove_found again]
    refine grows.mono fun place led => ?_
    obtain ⟨q, member, inner, leads⟩ := led
    have same : (last.files.erase (dir ++ [name])).cwd = last.files.cwd := rfl
    obtain ⟨more, leads'⟩ := FileSystem.stat_directory same kinds (FileSystem.stat_iff.mpr leads)
    exact ⟨q, member, more, FileSystem.stat_iff.mp leads'⟩
  · refine (told request member).before seen fun place o there => ?_
    rw [staged.outlineAt_eq]
    split
    · rename_i spot
      have free : fs.outlineAt place = none := by
        rw [spot, FileSystem.outlineAt, Node.outlineAt_none,
          Node.get?_child (FileSystem.resolve_found staged.directory), staged.free]
      rw [free] at there
      cases there
    · exact there

end Temporary

namespace Linter

variable {programs others : Programs} {world after : World} {program root : Path}
  {config : LintConfig} {fix : Bool}

/-- To create a linter makes its cache, or a part of it, and where it succeeds a module in it. -/
theorem create_cases {result : Except Error Linter}
    (ran : (create program root config fix programs).run world = (result, after)) :
    ∃ grown err, world.files.Grows grown (grown.LedTo (cachePath world.files.cwd root).ancestors) ∧
      ((∃ e, result = .error e ∧ after = { world with files := grown, err }) ∨
        ∃ linter dir entries name held, result = .ok linter ∧ linter.fix = fix ∧
          after = { world with files := after.files, err } ∧
          grown.Staged (cachePath world.files.cwd root) dir entries name after.files held ∧
          after.files.resolve false linter.configPath = .ok (.found (dir ++ [name]) (.file held))) := by
  rw [create] at ran
  rcases bind_cases ran with ⟨e, rfl, failed⟩ | ⟨q, first, anchored, afterRoot⟩
  · obtain ⟨err, rfl⟩ := (calm_absolute _ root).run failed
    exact ⟨world.files, err, .refl _ _, .inl ⟨e, rfl, rfl⟩⟩
  obtain ⟨located, same⟩ := absolute_ok anchored
  rw [same] at afterRoot
  rcases bind_cases afterRoot with ⟨e, rfl, failed⟩ | ⟨text, warned, rendered, afterText⟩
  · obtain ⟨err, rfl⟩ := (calm_moduleText config).run failed
    exact ⟨world.files, err, .refl _ _, .inl ⟨e, rfl, rfl⟩⟩
  obtain ⟨err, rfl⟩ := (calm_moduleText config).run rendered
  have cache : q.normalize.joinText cacheDirectory = cachePath world.files.cwd root := by
    rw [cachePath, Path.locate, located]
    rfl
  dsimp only at afterText
  rw [cache] at afterText
  cases made : (FileAction.makeDirectories (cachePath world.files.cwd root)).run world.files with
  | mk outcome grown =>
    have grows := FileAction.makeDirectories_grows made
    refine ⟨grown, err, grows, ?_⟩
    rcases bind_cases afterText with ⟨e, rfl, failed⟩ | ⟨⟨⟩, mid, making, afterCache⟩
    · rw [run_change, made] at failed
      obtain ⟨-, rfl⟩ := Prod.mk.inj failed
      exact .inl ⟨e, rfl, rfl⟩
    · rw [run_change, made] at making
      obtain ⟨-, rfl⟩ := Prod.mk.inj making
      rcases stage_cases (by decide) (by decide) (by decide) afterCache with ⟨e, rfl, rfl⟩ |
        ⟨temporary, dir, entries, name, held, rfl, shape, staged, found⟩
      · exact .inl ⟨e, rfl, rfl⟩
      · exact .inr ⟨_, dir, entries, name, held, rfl, rfl, shape, staged, found⟩

/-- A linter that is only watched leaves its cache, at most. -/
theorem watches_withLinter {use : Linter → Action α} (world : World)
    (watches : ∀ linter, Watches programs (cachePath world.files.cwd root).ancestors (use linter)) :
    Watched (cachePath world.files.cwd root).ancestors world
      ((withLinter program root config fix use programs).run world).2 := by
  rw [withLinter, run_bind]
  cases created : (create program root config fix programs).run world with
  | mk result ready =>
    obtain ⟨grown, err, grows, ⟨e, rfl, rfl⟩ | ⟨linter, dir, entries, name, held, rfl, -, shape, staged,
      found⟩⟩ := create_cases created
    · exact ⟨rfl, grows, [], rfl, by simp⟩
    · dsimp only
      rw [run_withTemporary]
      have first : Watched (cachePath world.files.cwd root).ancestors world
          { world with files := grown, err } := ⟨rfl, grows, [], rfl, by simp⟩
      have second := (watches linter ready).removed staged found
      have start : ({ ready with files := grown } : World) = { world with files := grown, err } := by
        rw [shape]
      rw [start] at second
      exact first.trans second

theorem blind_withLinter {use : Linter → Action α}
    (blind : ∀ linter, linter.fix = fix → Blind programs others (use linter)) :
    Blind programs others (withLinter program root config fix use) := by
  intro world
  rw [withLinter, run_bind, run_bind, blind_create program root config fix world]
  cases created : (create program root config fix programs).run world with
  | mk result ready =>
    obtain ⟨grown, err, -, ⟨e, rfl, -⟩ | ⟨linter, -, -, -, -, rfl, fixes, -⟩⟩ := create_cases created
    · rfl
    · exact blind_withTemporary (blind linter fixes) ready

end Linter

namespace FormatProgram

variable {programs others : Programs} {program : Path} {options : Members} {ps : List Path}

/-- The options of a formatter leave nothing behind. -/
theorem watches_withFormatter {use : FormatProgram → Action α} (world : World)
    (watches : ∀ formatter inner, inner.files.cwd = world.files.cwd →
      Watched ps inner ((use formatter programs).run inner).2) :
    Watched ps world ((withFormatter program options use programs).run world).2 := by
  rw [withFormatter, run_bind]
  cases created : (create program options programs).run world with
  | mk result ready =>
    rcases stage_cases (by decide) (by decide) (by decide) created with ⟨e, rfl, rfl⟩ |
      ⟨temporary, dir, entries, name, held, rfl, shape, staged, found⟩
    · exact .warned ⟨ready.err, rfl⟩
    · dsimp only
      rw [run_withTemporary]
      have seen : ready.files.cwd = world.files.cwd := by
        rw [staged.files_eq]
        rfl
      have left := (watches ⟨program, temporary⟩ ready seen).removed staged found
      have start : ({ ready with files := world.files } : World) = world := by
        rw [shape]
      rwa [start] at left

theorem blind_withFormatter {use : FormatProgram → Action α}
    (blind : ∀ formatter, Blind programs others (use formatter)) :
    Blind programs others (withFormatter program options use) :=
  (blind_create program options).bind fun formatter => blind_withTemporary (blind formatter)

end FormatProgram

section Commands

variable {programs others : Programs} {world after : World} {cwd : Path} {args : RunArgs}

/-- The work of a report-only run on the files that it has selected. -/
def checkFiles (s : Settings) (config : LintConfig) (options : Members) (files : List Path) :
    Action (List LintResult) :=
  FormatProgram.withFormatter s.prettierBin options fun formatter =>
    Linter.withLinter s.eslintBin s.root config false fun linter =>
      Batch.formatAndLint { format := formatter.format, lint := linter.lint }
        { check := true, outputDir := s.outputDir, relativeStem := s.relativeStem } files

theorem Programs.LeaveFiles.aloof (leave : programs.LeaveFiles) : programs.Aloof :=
  fun file => leave (ConfigFile.evaluation file)

theorem watched_checkFiles (leave : programs.LeaveFiles) (s : Settings) (config : LintConfig)
    (options : Members) (files : List Path) (world : World) :
    Watched (Linter.cachePath world.files.cwd s.root).ancestors world
      ((checkFiles s config options files programs).run world).2 := by
  refine FormatProgram.watches_withFormatter world fun formatter inner seen => ?_
  rw [← seen]
  refine Linter.watches_withLinter inner fun linter => ?_
  refine Batch.watches_formatAndLint rfl (fun text file => ?_) files
  exact (calm_start (leave _)).bind fun output => calm_ofExcept _

theorem blind_checkFiles (agree : programs.Agree others (.lint args)) (s : Settings)
    (config : LintConfig) (options : Members) (files : List Path) :
    Blind programs others (checkFiles s config options files) := by
  refine FormatProgram.blind_withFormatter fun formatter => ?_
  refine Linter.blind_withLinter fun linter noFix => ?_
  exact Batch.blind_formatAndLint agree rfl noFix rfl files

theorem output_checkFiles {s : Settings} {config : LintConfig} {options : Members}
    {files : List Path} {results : List LintResult}
    (ran : (checkFiles s config options files programs).run world = (.ok results, after)) :
    ∀ r ∈ results, r.output = none := by
  obtain ⟨formatter, ready, -, formatting⟩ := bind_ok ran
  obtain ⟨left, linted⟩ := withTemporary_ok formatting
  obtain ⟨linter, configured, -, linting⟩ := bind_ok linted
  obtain ⟨last, worked⟩ := withTemporary_ok linting
  exact Batch.output_formatAndLint rfl worked

/-- A report-only run fails before it has done anything, or works on its files and then prints its
    report. -/
theorem lint_cases (leave : programs.LeaveFiles) {result : Except Error Nat}
    (ran : (formatAndLintCommand args true cwd programs).run world = (result, after)) :
    (∃ e err, result = .error e ∧ after = { world with err }) ∨
    ∃ s config options files err, Settings.load world.files args cwd = .ok s ∧
      ((∃ e, result = .error e ∧
        (checkFiles s config options files programs).run { world with err } = (.error e, after)) ∨
      ∃ (report : Formatter) (results : List LintResult) (last : World),
        (checkFiles s config options files programs).run { world with err } = (.ok results, last) ∧
        result = .ok (Report.exitCode (report.render results)) ∧
        after = { last with out := last.out ++ report.render results }) := by
  have stopped {mid : World} {e : Error} (left : ∃ err, after = { mid with err })
      (same : ∃ err, mid = { world with err }) :
      ∃ e' err, (.error e : Except Error Nat) = .error e' ∧ after = { world with err } := by
    obtain ⟨err, rfl⟩ := left
    obtain ⟨err', rfl⟩ := same
    exact ⟨e, err, rfl, rfl⟩
  rw [formatAndLintCommand] at ran
  rcases bind_cases ran with ⟨e, rfl, failed⟩ | ⟨s, same, loading, afterSettings⟩
  · exact .inl (stopped ((calm_read _).run failed) ⟨world.err, rfl⟩)
  obtain ⟨loaded, unchanged⟩ := loadSettings_ok loading
  rw [unchanged] at afterSettings
  rcases bind_cases afterSettings with ⟨e, rfl, failed⟩ | ⟨report, named, naming, afterReport⟩
  · exact .inl (stopped ((calm_ofExcept _).run failed) ⟨world.err, rfl⟩)
  obtain ⟨err₁, rfl⟩ := (calm_ofExcept _).run naming
  rcases bind_cases afterReport with ⟨e, rfl, failed⟩ | ⟨config, configured, configuring, afterConfig⟩
  · exact .inl (stopped ((calm_lintConfig leave.aloof s).run failed) ⟨err₁, rfl⟩)
  obtain ⟨err₂, rfl⟩ := (calm_lintConfig leave.aloof s).run configuring
  rcases bind_cases afterConfig with ⟨e, rfl, failed⟩ | ⟨options, chosen, choosing, afterOptions⟩
  · exact .inl (stopped ((calm_formatOptions leave.aloof s).run failed) ⟨err₂, rfl⟩)
  obtain ⟨err₃, rfl⟩ := (calm_formatOptions leave.aloof s).run choosing
  rcases bind_cases afterOptions with ⟨e, rfl, failed⟩ | ⟨files, selected, selecting, afterFiles⟩
  · exact .inl (stopped ((calm_warning _).run failed) ⟨err₃, rfl⟩)
  obtain ⟨err₄, rfl⟩ := (calm_warning _).run selecting
  refine .inr ⟨s, config, options, files, err₄, loaded, ?_⟩
  rcases bind_cases afterFiles with ⟨e, rfl, failed⟩ | ⟨results, last, worked, reported⟩
  · exact .inl ⟨e, rfl, failed⟩
  · cases reported
    exact .inr ⟨report, results, last, worked, rfl, rfl⟩

theorem blind_lint (agree : programs.Agree others (.lint args)) :
    Blind programs others (formatAndLintCommand args true cwd) := by
  refine (blind_read _).bind fun s => (blind_ofExcept _).bind fun report => ?_
  refine (blind_lintConfig agree s).bind fun config => ?_
  refine (blind_formatOptions agree s).bind fun options => ?_
  refine (blind_warning _).bind fun files => ?_
  refine (blind_checkFiles agree s config options files).bind fun results => ?_
  exact fun world => rfl

/-- A place on the way to the linter's cache in the project of a command. -/
def OnCacheWay (command : Command) (cwd : Path) (world after : World) (place : Place) : Prop :=
  ∃ args s, command = .lint args ∧ Settings.load world.files args cwd = .ok s ∧
    after.files.LedTo (Linter.cachePath world.files.cwd s.root).ancestors place

/-- What a command that only reports leaves behind, however it ended. -/
structure LeftByReport (command : Command) (cwd : Path) (world after : World) : Prop where
  /-- Directories on the way to the linter's cache are all that is new, and nothing else changed. -/
  files : world.files.Grows after.files (OnCacheWay command cwd world after)
  /-- Only the linter was asked anything, and about texts on disk. -/
  asked : ∃ asked, after.requests = asked ++ world.requests ∧
    ∀ request ∈ asked, (∃ args, command = .lint args) ∧ request.Truthful world.files

theorem LeftByReport.told {command : Command} (left : ∃ err out, after = { world with err, out }) :
    LeftByReport command cwd world after := by
  obtain ⟨err, out, rfl⟩ := left
  exact ⟨.refl _ _, [], rfl, by simp⟩

theorem Watched.leftByReport {s : Settings} {err : Sink}
    (loaded : Settings.load world.files args cwd = .ok s)
    (watched : Watched (Linter.cachePath world.files.cwd s.root).ancestors { world with err } after) :
    LeftByReport (.lint args) cwd world after := by
  obtain ⟨asked, requests, told⟩ := watched.asked
  refine ⟨watched.files.mono fun place led => ⟨args, s, rfl, loaded, led⟩, asked, requests, ?_⟩
  exact fun request member => ⟨⟨args, rfl⟩, told request member⟩

theorem lint_left (leave : programs.LeaveFiles) {result : Except Error Nat}
    (ran : (formatAndLintCommand args true cwd programs).run world = (result, after)) :
    LeftByReport (.lint args) cwd world after := by
  rcases lint_cases leave ran with ⟨e, err, -, rfl⟩ | ⟨s, config, options, files, err, loaded, ended⟩
  · exact .told ⟨err, world.out, rfl⟩
  have watched := watched_checkFiles leave s config options files { world with err }
  rcases ended with ⟨e, -, failed⟩ | ⟨report, results, last, worked, -, rfl⟩
  · rw [failed] at watched
    exact watched.leftByReport loaded
  · rw [worked] at watched
    have left : LeftByReport (.lint args) cwd world last := watched.leftByReport loaded
    exact ⟨left.files, left.asked⟩

/-- All that it may do is to print and to add warnings. -/
def Action.Tells (programs : Programs) (a : Action α) : Prop :=
  ∀ world, ∃ err out, ((a programs).run world).2 = { world with err, out }

theorem Action.Calm.tells {a : Action α} {f : α → Action β} (calm : Calm programs a)
    (rest : ∀ value, Tells programs (f value)) : Tells programs (a >>= f) := by
  intro world
  rw [run_bind]
  cases ran : (a programs).run world with
  | mk result mid =>
    obtain ⟨err, rfl⟩ := calm.run ran
    cases result with
    | error e => exact ⟨err, world.out, rfl⟩
    | ok value =>
      obtain ⟨err', out, left⟩ := rest value { world with err }
      exact ⟨err', out, left⟩

theorem tells_printJson (value : Json) : Tells programs (printJson value) :=
  fun world => ⟨world.err, world.out ++ (value.pretty ++ "\n"), rfl⟩

theorem tells_showLintConfig (leave : programs.LeaveFiles) (args : RunArgs) :
    Tells programs (run (.showLintConfig args) cwd) := by
  refine (calm_read _).tells fun s => (calm_lintConfig leave.aloof s).tells fun config => ?_
  cases config with
  | entries es => exact tells_printJson _
  | module p => exact (calm_load leave.aloof _ p).tells fun value => tells_printJson value

theorem tells_showFormatConfig (leave : programs.LeaveFiles) (args : RunArgs) :
    Tells programs (run (.showFormatConfig args) cwd) :=
  (calm_read _).tells fun s => (calm_formatOptions leave.aloof s).tells fun _ => tells_printJson _

theorem blind_printJson (value : Json) : Blind programs others (printJson value) := fun _ => rfl

theorem blind_run {command : Command} (reports : command.ReportsOnly)
    (agree : programs.Agree others command) : Blind programs others (run command cwd) := by
  cases reports with
  | lint args => exact blind_lint agree
  | showLintConfig args =>
    refine (blind_read _).bind fun s => (blind_lintConfig agree s).bind fun config => ?_
    cases config with
    | entries es => exact blind_printJson _
    | module p => exact (blind_load agree _ p).bind fun value => blind_printJson value
  | showFormatConfig args =>
    exact (blind_read _).bind fun s => (blind_formatOptions agree s).bind fun _ => blind_printJson _

theorem leftByReport_run {command : Command} (reports : command.ReportsOnly)
    (leave : programs.LeaveFiles) {result : Except Error Nat}
    (ran : (run command cwd programs).run world = (result, after)) :
    LeftByReport command cwd world after := by
  have left := congrArg Prod.snd ran
  dsimp only at left
  subst left
  cases reports with
  | lint args => exact lint_left leave ran
  | showLintConfig args => exact .told (tells_showLintConfig leave args world)
  | showFormatConfig args => exact .told (tells_showFormatConfig leave args world)

theorem FileSystem.Grows.file_iff {fs wide : FileSystem} {made : Place → Prop}
    (grows : fs.Grows wide made) (place : Place) (data : FileData) :
    wide.get? place = some (.file data) ↔ fs.get? place = some (.file data) := by
  have outlines : wide.outlineAt place = some (.file data) ↔ fs.outlineAt place = some (.file data) := by
    rcases grows.each place with same | ⟨free, made, -⟩
    · rw [same]
    · simp [free, made]
  exact Node.outlineAt_file.symm.trans (outlines.trans Node.outlineAt_file)

end Commands

/-- A command that only reports, on whatever way its run ends, leaves every regular file as it was
    and none besides; directories on the way to the linter's cache are all that it may add. The
    formatter is not asked, the linter is asked about texts on disk and not for fixes, and what it
    reports carries no text. Other programs that agree where the command may start them change
    nothing, whatever they would do elsewhere. -/
theorem report_leaves_files (programs : Programs) (command : Command) (cwd : Path)
    (world after : World) (result : Except Error Nat) (reports : command.ReportsOnly)
    (leave : programs.LeaveFiles)
    (ran : (run command cwd programs).run world = (result, after)) :
    (∀ place data, after.files.get? place = some (.file data) ↔
      world.files.get? place = some (.file data)) ∧
    world.files.Grows after.files (OnCacheWay command cwd world after) ∧
    (∃ asked, after.requests = asked ++ world.requests ∧
      ∀ request ∈ asked, (∃ args, command = .lint args) ∧ request.Truthful world.files) ∧
    (∀ args exitCode, command = .lint args → result = .ok exitCode →
      ∃ s config options files err report results last,
        (checkFiles s config options files programs).run { world with err } = (.ok results, last) ∧
        (∀ r ∈ results, r.output = none) ∧
        after.out = world.out ++ Formatter.render report results ∧
        exitCode = Report.exitCode (report.render results)) ∧
    ∀ others, programs.Agree others command → (run command cwd others).run world = (result, after) := by
  have left := leftByReport_run reports leave ran
  refine ⟨left.files.file_iff, left.files, left.asked, ?_, ?_⟩
  · rintro args exitCode rfl rfl
    rcases lint_cases leave ran with ⟨e, err, failed, -⟩ |
      ⟨s, config, options, files, err, -, ⟨e, failed, -⟩ | ⟨report, results, last, worked, ended, rfl⟩⟩
    · cases failed
    · cases failed
    · have watched := watched_checkFiles leave s config options files { world with err }
      rw [worked] at watched
      refine ⟨s, config, options, files, err, report, results, last, worked,
        output_checkFiles worked, ?_, Except.ok.inj ended⟩
      rw [← watched.out]
  · intro others agree
    rw [blind_run reports agree world, ran]

/-- A linter that always offers a fix. -/
def eagerFixer : Programs := fun _ => pure {
  status := .code 0
  stdout := "[\x7b\"filePath\":\"a\",\"messages\":[],\"output\":\"y\"\x7d]".toUTF8 }

theorem report_leaves_files_sample : ∃ result after,
    (run (.lint bareArgs) ⟨[0x2F, 0x70]⟩ eagerFixer).run
      (bareProject [] [([0x61], .file ⟨"x".toUTF8, 0o644, false⟩)]) = (result, after) ∧
    after.files.get? [[0x70], [0x61]] = some (.file ⟨"x".toUTF8, 0o644, false⟩) ∧
    ∀ request ∈ after.requests, ∃ text file, request = .lint text file := by
  have leave : eagerFixer.LeaveFiles := fun _ _ => rfl
  obtain ⟨files, -, ⟨asked, requests, told⟩, -⟩ :=
    report_leaves_files eagerFixer _ ⟨[0x2F, 0x70]⟩ _ _ _ (.lint bareArgs) leave rfl
  refine ⟨_, _, rfl, (files _ _).mpr rfl, fun request member => ?_⟩
  rw [requests] at member
  obtain ⟨-, text, file, same, -⟩ := told request (by simpa [bareProject] using member)
  exact ⟨text, file, same⟩

end FormatLint
