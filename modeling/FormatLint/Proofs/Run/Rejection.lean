import FormatLint.Proofs.Batch.Write
import FormatLint.Proofs.FileSystem.Landing
import FormatLint.Proofs.Run.Calm
import Mathlib

/-!
Runs that are rejected. Settings, configuration and selection are read before anything is written,
and work on files has begun only when every file is known to have a target; so a run that is
rejected leaves the files as they were, apart from the directories of the linter's cache.
-/

namespace FormatLint

open FormatLint.Action

/-- All that a rejected run leaves behind: warnings, and directories that `made` holds of. -/
structure Spared (made : Place → Prop) (world after : World) : Prop where
  out : after.out = world.out
  requests : after.requests = world.requests
  files : world.files.Grows after.files made

theorem Spared.warned {made : Place → Prop} {world after : World}
    (left : ∃ err, after = { world with err }) : Spared made world after := by
  obtain ⟨err, rfl⟩ := left
  exact ⟨rfl, rfl, .refl world.files made⟩

/-- The invocation that evaluates a module. -/
def ConfigFile.evaluation (file : Path) : Invocation where
  program := Path.ofString evaluator
  arguments := [Utf8.encode "--input-type=module", Utf8.encode "-e", Utf8.encode evaluationScript,
    file.bytes]

/-- To evaluate a module leaves the files alone. -/
def Programs.Aloof (programs : Programs) : Prop :=
  ∀ file fs, ((programs (ConfigFile.evaluation file)).run fs).2 = fs

section Loading

variable {programs : Programs} (aloof : programs.Aloof)

include aloof

theorem calm_evaluate (p : Path) : Calm programs (ConfigFile.evaluate p) := by
  refine (calm_absolute _ p).bind fun file => (calm_start (aloof file)).bind fun output => ?_
  dsimp only
  split
  · exact calm_throw _
  · cases Utf8.read? output.stdout with
    | some text => exact calm_pure text
    | none => exact calm_throw _

theorem calm_load (decode : View → Datum → Decoded α) (p : Path) :
    Calm programs (ConfigFile.load decode p) := by
  rw [ConfigFile.load]
  split
  · exact calm_read _
  · exact calm_read _
  · exact calm_read _
  · exact (calm_evaluate aloof p).bind fun text => calm_ofExcept _

theorem calm_lintConfig (s : Settings) : Calm programs (lintConfig s) := by
  refine (calm_ofExcept _).bind fun _ => ?_
  split
  · exact (calm_read _).bind fun _ => calm_pure _
  · refine (calm_option_mapM (calm_load aloof _) _).bind fun custom => ?_
    refine (calm_option_mapM (calm_load aloof _) _).bind fun ruleSets => ?_
    exact (calm_read _).bind fun project => (calm_ofExcept _).bind fun _ => calm_pure _

theorem calm_formatOptions (s : Settings) : Calm programs (formatOptions s) :=
  (calm_option_mapM (calm_load aloof _) _).bind fun _ => calm_pure _

end Loading

namespace Batch

variable {programs : Programs} {engines : Engines} {o : Options} {file : Path} {files : List Path}

theorem firm_guarded (temporary : Path) {step : Action Unit} (firm : Firm programs step) :
    Firm programs (Writing.guarded temporary step) := by
  intro world e after ran
  rw [Writing.guarded, run_tryCatch] at ran
  split at ran
  · cases ran
  · -- the failure is that of the step, thrown again
    rename_i failure mid failed
    rcases bind_error ran with discarding | ⟨_, last, -, thrown⟩
    · cases discarding
    · cases thrown
      exact firm _ _ _ failed

theorem firm_perform (w : Writing) : Firm programs w.perform := by
  have io := Error.ofFault_isRejection
  refine (firm_change (io _ _) _).bind fun _ => (firm_change (io _ _) _).bind fun temporary => ?_
  refine (firm_guarded temporary ?_).bind fun _ => firm_guarded temporary (firm_change (io _ _) _)
  refine (firm_change (io _ _) _).bind fun _ => ?_
  refine Firm.bind (fun world e after ran => by cases ran) fun world => ?_
  split
  · exact firm_change (io _ _) _
  · exact firm_pure _

/-- Engines whose failures are their own. -/
structure Engines.Firm (programs : Programs) (engines : Engines) : Prop where
  format : ∀ text file, Action.Firm programs (engines.format text file)
  lint : ∀ text file, Action.Firm programs (engines.lint text file)

theorem firm_processFile (firm : engines.Firm programs)
    (placed : ∀ source result e, writing? o file source result ≠ .error e) :
    Action.Firm programs (processFile engines o file) := by
  have asks (request : Request) : Action.Firm programs (ask request) := fun _ _ _ ran => by cases ran
  refine Firm.bind (fun world e after ran => by cases ran) fun read => ?_
  split
  · exact firm_pure _
  · rename_i source
    refine Firm.bind ?_ fun formatted => ?_
    · rw [formatSource]
      split
      · exact firm_pure _
      · exact (asks _).bind fun _ => firm.format _ _
    · refine Firm.bind ?_ fun result => ?_
      · exact (asks _).bind fun _ => (firm.lint _ _).bind fun _ => firm_pure _
      · refine (firm_ofExcept fun e failed => absurd failed (placed _ _ e)).bind fun written => ?_
        dsimp only
        split
        · exact (firm_perform _).bind fun _ => firm_pure _
        · exact firm_pure _

theorem forM_ok {check : α → Except Error Unit} {values : List α} {value : α}
    (passed : values.forM check = .ok ()) (member : value ∈ values) : check value = .ok () := by
  induction values with
  | nil => cases member
  | cons first values ih =>
    rw [List.forM_eq_forM, List.forM_cons] at passed
    cases checked : check first with
    | error e =>
      rw [checked] at passed
      cases passed
    | ok done =>
      rw [checked] at passed
      rcases List.mem_cons.mp member with rfl | member
      · exact checked
      · exact ih passed member

theorem checkTargets_ok (passed : checkTargets o files = .ok ()) (listed : file ∈ files)
    (source : String) (result : LintResult) (e : Error) : writing? o file source result ≠ .error e := by
  intro failed
  rw [writing?] at failed
  split at failed
  · cases failed
  · rename_i writes
    have writes : o.writes = true := by simpa using writes
    cases output : o.outputDir with
    | none =>
      rw [output] at failed
      cases text : result.output <;> rw [text] at failed <;> cases failed
    | some dir =>
      rw [checkTargets, output] at passed
      simp only [if_pos writes] at passed
      have placed := forM_ok passed listed
      rw [output] at failed
      dsimp only at failed
      cases target : reroot file o.relativeStem dir with
      | error e =>
        rw [target] at placed
        cases placed
      | ok p =>
        rw [target] at failed
        cases failed

/-- Once files have passed the check, work on them is not rejected. -/
theorem harmless_processFiles (firm : engines.Firm programs) (files : List Path) :
    Harmless programs (processFiles engines o files) := by
  rw [processFiles]
  cases passed : checkTargets o files with
  | error e => exact (calm_throw e).harmless
  | ok done =>
    refine (calm_pure _).bind_harmless fun _ => Firm.harmless ?_
    exact firm_list_mapM fun file listed => firm_processFile firm (checkTargets_ok passed listed)

theorem harmless_formatAndLint (firm : engines.Firm programs) (files : List Path) :
    Harmless programs (formatAndLint engines o files) := by
  have works : Harmless programs (files.mapM located >>= processFiles engines o) := by
    refine (calm_list_mapM ?_ files).bind_harmless fun paths => harmless_processFiles firm paths
    exact fun file => (calm_absolute _ file).bind fun _ => calm_pure _
  rw [formatAndLint]
  dsimp only
  split
  · exact (calm_throw _).bind_harmless fun _ => works
  · exact works

end Batch

namespace FileSystem.Staged

variable {fs files mid : FileSystem} {p : Path} {dir : Place} {entries : List (Bytes × Node)}
  {name : Bytes} {held : FileData}

/-- A temporary file that has been made and filled can be found again. -/
theorem of_filled {lead trail : String} {temporary : Path} {content : ByteArray}
    (longer : 2 < (Utf8.encode lead).length) (plainLead : Path.slash ∉ Utf8.encode lead)
    (plainTrail : Path.slash ∉ Utf8.encode trail)
    (created : (FileAction.createTemporary p lead trail).run fs = (.ok temporary, mid))
    (filled : (FileAction.fill temporary content).run mid = (.ok (), files)) :
    ∃ dir entries name held, fs.Staged p dir entries name files held ∧
      files.resolve false temporary = .ok (.found (dir ++ [name]) (.file held)) := by
  obtain ⟨dir, entries, name, rfl, staged⟩ :=
    of_createTemporary longer plainLead plainTrail created
  obtain ⟨staged', passed, short⟩ := staged.update_ok filled
  exact ⟨dir, entries, name, _, staged', staged'.resolve_temporary passed short⟩

theorem outlineAt_eq (staged : fs.Staged p dir entries name files held) (q : Place) :
    files.outlineAt q = if q = dir ++ [name] then some (.file held) else fs.outlineAt q := by
  have directory := resolve_found staged.directory
  rw [staged.files_eq, ← put_child_eq_beside directory]
  exact outlineAt_put_child directory (Node.bare_free staged.free) _ (fun _ _ => rfl) q

/-- Directories that were made beside the temporary file outlive it. -/
theorem removed (staged : fs.Staged p dir entries name files held) {made : Place → Prop}
    (grows : files.Grows mid made) :
    fs.Grows (mid.erase (dir ++ [name])) made ∧
      ∀ q, mid.kindAt q ≠ some .file → (mid.erase (dir ++ [name])).kindAt q = mid.kindAt q := by
  -- the file is still there, so that nothing is below it and it goes alone
  have there : mid.outlineAt (dir ++ [name]) = some (.file held) :=
    grows.kept (by rw [staged.outlineAt_eq, if_pos rfl])
  have inside : mid.outlineAt (dir ++ name :: []) ≠ none := by simp [there]
  obtain ⟨more, directory⟩ := Node.outlineAt_dir.mp (Node.outlineAt_above inside)
  have file : more.lookup name = some (.file held) := by
    rw [← Node.get?_child directory]
    exact Node.outlineAt_file.mp there
  have erased := outlineAt_erase_child directory (Node.bare_file file)
  refine ⟨⟨grows.seen.trans (by rw [staged.files_eq]; rfl), ?_⟩, ?_⟩
  · intro q
    rw [erased]
    by_cases spot : q = dir ++ [name]
    · have free : fs.outlineAt (dir ++ [name]) = none := by
        rw [outlineAt, Node.outlineAt_none, Node.get?_child (resolve_found staged.directory),
          staged.free]
      rw [if_pos spot, spot, free]
      exact .inl rfl
    · have before := staged.outlineAt_eq q
      rw [if_neg spot] at before ⊢
      rw [← before]
      exact grows.each q
  · intro q noFile
    rw [kindAt_eq_outlineAt, kindAt_eq_outlineAt, erased, if_neg]
    rintro rfl
    rw [kindAt_eq_outlineAt, there] at noFile
    exact noFile rfl

end FileSystem.Staged

section Temporary

variable {programs : Programs} {world after : World} {e : Error}

theorem Action.withTemporary_error {p : Path} {use : Path → Action α}
    (ran : (withTemporary p use programs).run world = (.error e, after)) :
    ∃ mid, (use p programs).run world = (.error e, mid) ∧
      after = { mid with files := ((FileAction.remove p).run mid.files).2 } := by
  rw [withTemporary, run_tryCatch] at ran
  split at ran
  · cases ran
  · rename_i failure mid failed
    rcases bind_error failed with used | ⟨value, last, -, rest⟩
    · cases ran
      exact ⟨mid, used, rfl⟩
    · cases rest

theorem Action.absolute_ok {wrap : SystemFault → Error} {p q : Path}
    (ran : (absolute wrap p programs).run world = (.ok q, after)) :
    Path.absolute? world.files.cwd p = some q ∧ after = world := by
  rw [run_absolute] at ran
  cases made : Path.absolute? world.files.cwd p with
  | none =>
    rw [made] at ran
    cases ran
  | some found =>
    rw [made] at ran
    cases ran
    exact ⟨rfl, rfl⟩

end Temporary

namespace Linter

variable {programs : Programs} {world after : World} {e : Error} {program root : Path}
  {config : LintConfig} {fix : Bool}

theorem firm_lint (l : Linter) (text : String) (file : Path) :
    Firm programs (l.lint text file) := by
  refine (firm_start _ _).bind fun output => firm_ofExcept ?_
  intro e failed
  rw [resultOf] at failed
  split at failed
  · split at failed
    · cases failed
      rfl
    · cases failed
  · cases failed
    rfl

/-- The directory of generated modules for a project. -/
def cachePath (cwd root : Path) : Path := (Path.locate cwd root).joinText cacheDirectory

theorem cachePath_form (cwd root : Path) : ∃ (a : Path.Anchor) (names : List Bytes),
    (∀ n ∈ names, Path.IsName n) ∧ cachePath cwd root = a.path names ∧
      (a.path names).isEmpty = false := by
  let cache := ["node_modules", ".cache", "fandl"].map Utf8.encode
  have text : Path.ofString cacheDirectory = ⟨Path.unsplit cache⟩ := by decide
  have below : ∀ n ∈ cache, Path.IsName n := by
    have each : ∀ n ∈ cache, n ≠ [] ∧ n ≠ [Path.dot] ∧ n ≠ [Path.dot, Path.dot] ∧
        Path.slash ∉ n := by decide
    intro n member
    obtain ⟨filled, notDot, notUp, plain⟩ := each n member
    exact ⟨filled, notDot, notUp, plain⟩
  obtain ⟨a, names, proper, form, filled⟩ :=
    Path.normalize_form ((Path.absolute? cwd root).getD root)
  rw [form] at filled
  refine ⟨a, names ++ cache, ?_, ?_, Path.Anchor.path_append_filled proper below filled⟩
  · exact List.forall_mem_append.mpr ⟨proper, below⟩
  · rw [cachePath, Path.locate, form, Path.joinText, text]
    exact Path.Anchor.path_join proper below (by simp [cache])

theorem firm_create : Firm programs (create program root config fix) := by
  have io := Error.ofFault_isRejection
  refine (firm_absolute (io _ _) root).bind fun q => ?_
  refine Firm.bind ?_ fun text => ?_
  · cases config with
    | entries es => exact firm_pure _
    | module p => exact (firm_absolute (io _ _) p).bind fun _ => firm_pure _
  · refine (firm_change (io _ _) _).bind fun _ => (firm_change (io _ _) _).bind fun _ => ?_
    exact (firm_change (io _ _) _).bind fun _ => firm_pure _

theorem calm_moduleText (config : LintConfig) : Calm programs config.moduleText := by
  cases config with
  | entries es => exact calm_pure _
  | module p => exact (calm_absolute _ p).bind fun _ => calm_pure _

theorem create_ok {linter : Linter}
    (ran : (create program root config fix programs).run world = (.ok linter, after)) :
    ∃ (mid : FileSystem) (dir : Place) (entries : List (Bytes × Node)) (name : Bytes)
      (held : FileData) (err : Sink),
      after = { world with files := after.files, err } ∧ world.files.Grows mid (· <+: dir) ∧
      mid.Staged (cachePath world.files.cwd root) dir entries name after.files held ∧
      after.files.resolve false linter.configPath = .ok (.found (dir ++ [name]) (.file held)) := by
  rw [create] at ran
  obtain ⟨q, first, anchored, afterRoot⟩ := bind_ok ran
  obtain ⟨located, same⟩ := absolute_ok anchored
  rw [same] at afterRoot
  obtain ⟨text, warned, rendered, afterText⟩ := bind_ok afterRoot
  obtain ⟨err, rfl⟩ := (calm_moduleText config).run rendered
  have cache : q.normalize.joinText cacheDirectory = cachePath world.files.cwd root := by
    rw [cachePath, Path.locate, located]
    rfl
  dsimp only at afterText
  rw [cache] at afterText
  obtain ⟨⟨⟩, grown, making, afterCache⟩ := bind_ok afterText
  obtain ⟨mid, made, rfl⟩ := change_ok making
  obtain ⟨temporary, opened, opening, afterOpen⟩ := bind_ok afterCache
  obtain ⟨empty, created, rfl⟩ := change_ok opening
  obtain ⟨⟨⟩, full, filling, returned⟩ := bind_ok afterOpen
  obtain ⟨files, filled, rfl⟩ := change_ok filling
  cases returned
  obtain ⟨a, names, proper, form, some⟩ := cachePath_form world.files.cwd root
  obtain ⟨dir, entries, name, held, staged, found⟩ :=
    FileSystem.Staged.of_filled (by decide) (by decide) (by decide) created filled
  rw [form] at made
  obtain ⟨dir', entries', leads, grows⟩ := FileAction.makeDirectories_ok proper some made
  have directory := staged.directory
  rw [form, leads] at directory
  cases directory
  exact ⟨mid, dir, entries, name, held, err, rfl, grows, staged, found⟩

/-- A rejected use of a linter leaves its cache. -/
theorem withLinter_rejected {use : Linter → Action α} (harmless : ∀ l, Harmless programs (use l))
    (rejected : e.isRejection = true)
    (ran : (withLinter program root config fix use programs).run world = (.error e, after)) :
    ∃ dir entries, Spared (· <+: dir) world after ∧
      after.files.stat (cachePath world.files.cwd root) = .ok (dir, .dir entries) := by
  rw [withLinter] at ran
  rcases bind_error ran with failed | ⟨linter, ready, created, used⟩
  · rw [firm_create _ _ _ failed] at rejected
    cases rejected
  · obtain ⟨mid, dir, entries, name, held, err, shape, grows, staged, found⟩ := create_ok created
    obtain ⟨last, failed, rfl⟩ := withTemporary_error used
    obtain ⟨err', rfl⟩ := harmless linter _ _ _ failed rejected
    have files : ((FileAction.remove linter.configPath).run ready.files).2 = mid := by
      rw [FileAction.remove_found found, staged.erase_eq]
    refine ⟨dir, entries, ⟨?_, ?_, ?_⟩, ?_⟩
    · rw [shape]
    · rw [shape]
    · rwa [files]
    · rw [files]
      exact FileSystem.stat_iff.mpr staged.directory

end Linter

namespace FormatProgram

variable {programs : Programs} {world after : World} {e : Error} {program : Path}
  {options : Members}

theorem firm_format (f : FormatProgram) (text : String) (file : Path) :
    Firm programs (f.format text file) := by
  refine (firm_start _ _).bind fun output => ?_
  dsimp only
  split
  · exact firm_throw rfl
  · cases Utf8.read? output.stdout with
    | some text => exact firm_pure text
    | none => exact firm_throw rfl

theorem firm_create : Firm programs (create program options) := by
  have io := Error.ofFault_isRejection
  refine (firm_change (io _ _) _).bind fun _ => ?_
  exact (firm_change (io _ _) _).bind fun _ => firm_pure _

theorem create_ok {formatter : FormatProgram}
    (ran : (create program options programs).run world = (.ok formatter, after)) :
    ∃ (dir : Place) (entries : List (Bytes × Node)) (name : Bytes) (held : FileData),
      after = { world with files := after.files } ∧
      world.files.Staged temporaryDirectory dir entries name after.files held ∧
      after.files.resolve false formatter.configPath = .ok (.found (dir ++ [name]) (.file held)) := by
  rw [create] at ran
  obtain ⟨temporary, opened, opening, afterOpen⟩ := bind_ok ran
  obtain ⟨empty, created, rfl⟩ := change_ok opening
  obtain ⟨⟨⟩, full, filling, returned⟩ := bind_ok afterOpen
  obtain ⟨files, filled, rfl⟩ := change_ok filling
  cases returned
  obtain ⟨dir, entries, name, held, staged, found⟩ :=
    FileSystem.Staged.of_filled (by decide) (by decide) (by decide) created filled
  exact ⟨dir, entries, name, held, rfl, staged, found⟩

/-- A rejected use of a formatter leaves the directories that its use has left. -/
theorem withFormatter_rejected {use : FormatProgram → Action α} {p : Path}
    (spared : ∀ f inner last, (use f programs).run inner = (.error e, last) →
      inner.files.cwd = world.files.cwd → ∃ dir entries, Spared (· <+: dir) inner last ∧
        last.files.stat p = .ok (dir, .dir entries))
    (rejected : e.isRejection = true)
    (ran : (withFormatter program options use programs).run world = (.error e, after)) :
    ∃ dir entries, Spared (· <+: dir) world after ∧ after.files.stat p = .ok (dir, .dir entries) := by
  rw [withFormatter] at ran
  rcases bind_error ran with failed | ⟨formatter, ready, created, used⟩
  · rw [firm_create _ _ _ failed] at rejected
    cases rejected
  · obtain ⟨place, entries, name, held, shape, staged, found⟩ := create_ok created
    obtain ⟨last, failed, rfl⟩ := withTemporary_error used
    have seen : ready.files.cwd = world.files.cwd := by
      rw [staged.files_eq]
      rfl
    obtain ⟨dir, inner, left, leads⟩ := spared formatter ready last failed seen
    obtain ⟨node, again⟩ := left.files.larger.resolve left.files.seen found
    obtain ⟨grows, kinds⟩ := staged.removed left.files
    have cwd : (last.files.erase (place ++ [name])).cwd = last.files.cwd := rfl
    obtain ⟨more, leads'⟩ := FileSystem.stat_directory cwd kinds leads
    have removed := FileAction.remove_found again
    refine ⟨dir, more, ⟨?_, ?_, ?_⟩, ?_⟩
    · rw [left.out, shape]
    · rw [left.requests, shape]
    · rwa [removed]
    · rwa [removed]

end FormatProgram

section Commands

variable {programs : Programs} {world after : World} {e : Error} {cwd : Path}

theorem loadSettings_ok {args : RunArgs} {s : Settings}
    (ran : (loadSettings args cwd programs).run world = (.ok s, after)) :
    Settings.load world.files args cwd = .ok s ∧ after = world := by
  rw [loadSettings, run_read, Prod.mk.injEq] at ran
  exact ⟨ran.1, ran.2.symm⟩

/-- The places on the way to the cache of the linter, for the settings of some arguments. -/
def OnCachePath (args : RunArgs) (cwd : Path) (world after : World) (place : Place) : Prop :=
  ∃ settings dir entries, Settings.load world.files args cwd = .ok settings ∧
    after.files.stat (Linter.cachePath world.files.cwd settings.root) = .ok (dir, .dir entries) ∧
    place <+: dir

/-- Work on files is rejected before it begins. -/
theorem engines_rejected {formatProgram lintProgram root : Path} {options : Members}
    {config : LintConfig} {fix : Bool} {o : Batch.Options} {files : List Path}
    (rejected : e.isRejection = true)
    (ran : (FormatProgram.withFormatter formatProgram options (fun formatter =>
      Linter.withLinter lintProgram root config fix fun linter =>
        Batch.formatAndLint { format := formatter.format, lint := linter.lint } o files)
      programs).run world = (.error e, after)) :
    ∃ dir entries, Spared (· <+: dir) world after ∧
      after.files.stat (Linter.cachePath world.files.cwd root) = .ok (dir, .dir entries) := by
  refine FormatProgram.withFormatter_rejected ?_ rejected ran
  intro formatter inner last failed seen
  rw [← seen]
  refine Linter.withLinter_rejected (fun linter => ?_) rejected failed
  exact Batch.harmless_formatAndLint ⟨formatter.firm_format, linter.firm_lint⟩ files

theorem formatAndLintCommand_rejected {args : RunArgs} {check : Bool}
    (aloof : programs.Aloof) (rejected : e.isRejection = true)
    (ran : (formatAndLintCommand args check cwd programs).run world = (.error e, after)) :
    Spared (OnCachePath args cwd world after) world after := by
  rw [formatAndLintCommand] at ran
  rcases bind_error ran with failed | ⟨settings, same, loading, afterSettings⟩
  · exact .warned ((calm_read _).run failed)
  obtain ⟨loaded, unchanged⟩ := loadSettings_ok loading
  rw [unchanged] at afterSettings
  rcases (calm_ofExcept _).bind_error afterSettings with left | ⟨report, err, afterReport⟩
  · exact .warned left
  rcases (calm_lintConfig aloof _).bind_error afterReport with left | ⟨config, err, afterConfig⟩
  · exact .warned left
  rcases (calm_formatOptions aloof _).bind_error afterConfig with left | ⟨options, err, afterOptions⟩
  · exact .warned left
  rcases (calm_warning _).bind_error afterOptions with left | ⟨files, err, afterFiles⟩
  · exact .warned left
  -- all that can still be rejected is the work on the files, and it fails before it begins
  rcases bind_error afterFiles with failed | ⟨results, last, -, reported⟩
  · obtain ⟨dir, entries, left, leads⟩ := engines_rejected rejected failed
    refine ⟨left.out, left.requests, left.files.mono fun place inside => ?_⟩
    exact ⟨settings, dir, entries, loaded, leads, inside⟩
  · cases reported

theorem firm_printJson (value : Json) : Firm programs (printJson value) := by
  intro world e after ran
  cases ran

theorem harmless_showLintConfig (args : RunArgs)
    (aloof : programs.Aloof) :
    Harmless programs (run (.showLintConfig args) cwd) := by
  refine (calm_read _).bind_harmless fun settings => ?_
  refine (calm_lintConfig aloof settings).bind_harmless fun config => ?_
  cases config with
  | entries es => exact (firm_printJson _).harmless
  | module p => exact (calm_load aloof _ p).bind_harmless fun _ => (firm_printJson _).harmless

theorem harmless_showFormatConfig (args : RunArgs)
    (aloof : programs.Aloof) :
    Harmless programs (run (.showFormatConfig args) cwd) := by
  refine (calm_read _).bind_harmless fun settings => ?_
  exact (calm_formatOptions aloof settings).bind_harmless fun _ => (firm_printJson _).harmless

end Commands

/-- A run that is rejected has printed nothing, has not asked its engines anything and leaves all
    files as they were; all that it may add are directories on the way to the linter's cache. -/
theorem rejected_run_leaves_files (programs : Programs) (command : Command) (cwd : Path)
    (world after : World) (e : Error)
    (aloof : programs.Aloof)
    (ran : (run command cwd programs).run world = (.error e, after))
    (rejected : e.isRejection = true) :
    after.out = world.out ∧ after.requests = world.requests ∧
    (∀ place data, world.files.get? place = some (.file data) →
      after.files.get? place = some (.file data)) ∧
    world.files.Grows after.files fun place =>
      ∃ args, (command = .formatAndLint args ∨ command = .lint args) ∧
        OnCachePath args cwd world after place := by
  have spared : Spared (fun place => ∃ args, (command = .formatAndLint args ∨ command = .lint args) ∧
      OnCachePath args cwd world after place) world after := by
    cases command with
    | formatAndLint args =>
      have left := formatAndLintCommand_rejected aloof rejected ran
      exact ⟨left.out, left.requests, left.files.mono fun place on => ⟨args, .inl rfl, on⟩⟩
    | lint args =>
      have left := formatAndLintCommand_rejected aloof rejected ran
      exact ⟨left.out, left.requests, left.files.mono fun place on => ⟨args, .inr rfl, on⟩⟩
    | showLintConfig args => exact .warned (harmless_showLintConfig args aloof _ _ _ ran rejected)
    | showFormatConfig args =>
      exact .warned (harmless_showFormatConfig args aloof _ _ _ ran rejected)
    | version => cases ran
  refine ⟨spared.out, spared.requests, ?_, spared.files⟩
  intro place data held
  exact Node.outlineAt_file.mp (spared.files.kept (Node.outlineAt_file.mpr held))

section Sample

/-- A directory `/tmp` for temporary files and a project `/p`, with what is given in each. -/
def bareProject (temporary project : List (Bytes × Node)) : World where
  files :=
    { root := .dir [([0x74, 0x6D, 0x70], .dir temporary), ([0x70], .dir project)]
      cwd := ⟨[0x2F, 0x70]⟩ }

/-- Selects the file `a` alone. -/
def bareArgs : RunArgs :=
  { files := ["a"], noStandardIgnores := true, ignorePackageSettings := true }

def noPrograms : Programs := fun _ => throw .notFound

def bareSettings : Settings :=
  Settings.resolve (bareProject [] []).files.isFile bareArgs {} ⟨[0x2F, 0x70]⟩

theorem bareSettings_root : bareSettings.root = ⟨[0x2F, 0x70]⟩ :=
  show (⟨[0x2F, 0x70]⟩ : Path).normalize = ⟨[0x2F, 0x70]⟩ by decide

theorem bare_loadSettings :
    (loadSettings bareArgs ⟨[0x2F, 0x70]⟩ noPrograms).run (bareProject [] []) =
      (.ok bareSettings, bareProject [] []) := by
  have found : Config.load (bareProject [] []).files bareArgs.config ⟨[0x2F, 0x70]⟩ = .ok none := by cbv
  rw [loadSettings, run_read, Settings.load, found]
  rfl

theorem bare_lintConfig : ∃ entries, (lintConfig bareSettings noPrograms).run (bareProject [] []) =
    (.ok (.entries entries), bareProject [] []) := by
  have project : Manifest.readProject (bareProject [] []).files
      (bareSettings.root.joinText Manifest.fileName) = .ok {} := by
    rw [bareSettings_root]
    cbv
  have steps : (lintConfig bareSettings noPrograms).run (bareProject [] []) =
      ((Action.read (fun fs => Manifest.readProject fs
          (bareSettings.root.joinText Manifest.fileName)) >>= fun project =>
        Action.ofExcept (compose { project }) >>= fun entries => pure (LintConfig.entries entries))
        noPrograms).run (bareProject [] []) := rfl
  rw [steps, run_bind, run_read, project]
  exact ⟨_, rfl⟩

theorem bare_select : Selection.select (bareProject [] []).files (selectionOptions bareSettings) {} =
    (.ok [], {}) := by
  have options : selectionOptions bareSettings =
      { root := ⟨[0x2F, 0x70]⟩, files := ["a"], noStandardIgnores := true,
        ignorePackageSettings := true } := by
    rw [selectionOptions, bareSettings_root]
    rfl
  rw [options]
  cbv

theorem bare_change {wrap : SystemFault → Error} {a : FileAction α} {value : α}
    {temporary project temporary' project' : List (Bytes × Node)}
    (ran : a.run (bareProject temporary project).files =
      (.ok value, (bareProject temporary' project').files)) :
    (change wrap a noPrograms).run (bareProject temporary project) =
      (.ok value, bareProject temporary' project') := by
  rw [run_change, ran]
  rfl

/-- The options of a formatter among the temporary files. -/
def bareOptions (content : ByteArray) : List (Bytes × Node) :=
  [(Utf8.encode "fandl-prettier.0.json", .file ⟨content, 0o600, true⟩)]

theorem bare_formatter (program : Path) (options : Members) : ∃ formatter content,
    (FormatProgram.create program options noPrograms).run (bareProject [] []) =
      (.ok formatter, bareProject (bareOptions content) []) := by
  have created : (FileAction.createTemporary FormatProgram.temporaryDirectory "fandl-prettier."
      ".json").run (bareProject [] []).files =
        (.ok (Path.ofString "/tmp/fandl-prettier.0.json"), (bareProject (bareOptions .empty) []).files) := by
    cbv
  have filled (content : ByteArray) : (FileAction.fill (Path.ofString "/tmp/fandl-prettier.0.json")
      content).run (bareProject (bareOptions .empty) []).files =
        (.ok (), (bareProject (bareOptions content) []).files) := by
    cbv
  rw [FormatProgram.create, run_bind_ok (bare_change created), run_bind_ok (bare_change (filled _))]
  exact ⟨_, _, rfl⟩

def bareCachePath : Path := Path.ofString "/p/node_modules/.cache/fandl"

/-- The cache of a project, with what is given in it. -/
def bareCache (modules : List (Bytes × Node)) : List (Bytes × Node) :=
  [(Utf8.encode "node_modules",
    .dir [(Utf8.encode ".cache", .dir [(Utf8.encode "fandl", .dir modules)])])]

def bareModule (content : ByteArray) : List (Bytes × Node) :=
  [(Utf8.encode "eslint.config.0.mjs", .file ⟨content, 0o600, true⟩)]

theorem bare_cache (content : ByteArray) :
    (FileAction.makeDirectories bareCachePath).run (bareProject (bareOptions content) []).files =
      (.ok (), (bareProject (bareOptions content) (bareCache [])).files) := by
  cbv

theorem bare_module (content : ByteArray) :
    (FileAction.createTemporary bareCachePath "eslint.config." ".mjs").run
      (bareProject (bareOptions content) (bareCache [])).files =
        (.ok (bareCachePath.joinText "eslint.config.0.mjs"),
          (bareProject (bareOptions content) (bareCache (bareModule .empty))).files) := by
  cbv

theorem bare_module_filled (content text : ByteArray) :
    (FileAction.fill (bareCachePath.joinText "eslint.config.0.mjs") text).run
      (bareProject (bareOptions content) (bareCache (bareModule .empty))).files =
        (.ok (), (bareProject (bareOptions content) (bareCache (bareModule text))).files) := by
  cbv

theorem bare_linter (content : ByteArray) (program : Path) (entries : List Entry) (fix : Bool) :
    ∃ linter after, (Linter.create program bareSettings.root (.entries entries) fix noPrograms).run
      (bareProject (bareOptions content) []) = (.ok linter, after) := by
  have path : (⟨[0x2F, 0x70]⟩ : Path).normalize.joinText Linter.cacheDirectory =
      bareCachePath := by decide
  have anchored : (Action.absolute (Error.ofFault "resolve project root" ⟨[0x2F, 0x70]⟩)
      ⟨[0x2F, 0x70]⟩ noPrograms).run (bareProject (bareOptions content) []) =
        (.ok ⟨[0x2F, 0x70]⟩, bareProject (bareOptions content) []) := by
    rw [run_absolute]
    rfl
  have rendered : (LintConfig.moduleText (.entries entries) noPrograms).run
      (bareProject (bareOptions content) []) =
        (.ok (ConfigModule.render entries), bareProject (bareOptions content) []) := rfl
  rw [bareSettings_root, Linter.create, run_bind_ok anchored]
  dsimp only
  rw [run_bind_ok rendered, path, run_bind_ok (bare_change (bare_cache content)),
    run_bind_ok (bare_change (bare_module content)),
    run_bind_ok (bare_change (bare_module_filled content _))]
  exact ⟨_, _, rfl⟩

theorem withTemporary_fails {programs : Programs} {p : Path} {use : Path → Action α}
    {world mid : World} {e : Error} (failed : (use p programs).run world = (.error e, mid)) :
    ∃ after, (withTemporary p use programs).run world = (.error e, after) := by
  rw [withTemporary, run_tryCatch, run_bind, failed]
  exact ⟨_, rfl⟩

/-- Without files to work on the run is rejected, when the options and the cache have been
    written. -/
theorem bare_rejected : ∃ after,
    (run (.formatAndLint bareArgs) ⟨[0x2F, 0x70]⟩ noPrograms).run (bareProject [] []) =
      (.error Error.noFiles, after) := by
  obtain ⟨entries, composed⟩ := bare_lintConfig
  have report : (Action.ofExcept (Formatter.ofName bareSettings.formatter) noPrograms).run
      (bareProject [] []) = (.ok .stylish, bareProject [] []) := rfl
  have options : (formatOptions bareSettings noPrograms).run (bareProject [] []) =
      (.ok (FormatOptions.effective none), bareProject [] []) := rfl
  have selected : (Action.warning (fun fs sink => Selection.select fs (selectionOptions bareSettings)
      sink) noPrograms).run (bareProject [] []) = (.ok [], bareProject [] []) := by
    rw [run_warning]
    simp only [show (bareProject [] []).err = {} from rfl, bare_select]
    rfl
  obtain ⟨formatter, content, created⟩ :=
    bare_formatter bareSettings.prettierBin (FormatOptions.effective none)
  obtain ⟨linter, ready, configured⟩ := bare_linter content bareSettings.eslintBin entries true
  have refused (o : Batch.Options) : (Batch.formatAndLint
      { format := formatter.format, lint := linter.lint } o [] noPrograms).run ready =
        (.error Error.noFiles, ready) := rfl
  have linting : ∃ last, (Linter.withLinter bareSettings.eslintBin bareSettings.root (.entries entries)
      true (fun linter => Batch.formatAndLint { format := formatter.format, lint := linter.lint }
        { outputDir := bareSettings.outputDir, relativeStem := bareSettings.relativeStem } [])
      noPrograms).run (bareProject (bareOptions content) []) = (.error Error.noFiles, last) := by
    rw [Linter.withLinter, run_bind, configured]
    exact withTemporary_fails (refused _)
  obtain ⟨last, linting⟩ := linting
  have formatting : ∃ last, (FormatProgram.withFormatter bareSettings.prettierBin
      (FormatOptions.effective none) (fun formatter =>
        Linter.withLinter bareSettings.eslintBin bareSettings.root (.entries entries) true fun linter =>
          Batch.formatAndLint { format := formatter.format, lint := linter.lint }
            { outputDir := bareSettings.outputDir, relativeStem := bareSettings.relativeStem } [])
      noPrograms).run (bareProject [] []) = (.error Error.noFiles, last) := by
    rw [FormatProgram.withFormatter, run_bind, created]
    exact withTemporary_fails linting
  obtain ⟨after, formatting⟩ := formatting
  refine ⟨after, ?_⟩
  rw [run, formatAndLintCommand, run_bind_ok bare_loadSettings, run_bind_ok report,
    run_bind_ok composed, run_bind_ok options, run_bind_ok selected, run_bind, Bool.not_false,
    formatting]

theorem rejected_run_leaves_files_sample : ∃ after,
    (run (.formatAndLint bareArgs) ⟨[0x2F, 0x70]⟩ noPrograms).run (bareProject [] []) =
      (.error Error.noFiles, after) ∧
    after.out = "" ∧ after.requests = [] ∧
    (bareProject [] []).files.Grows after.files fun place =>
      ∃ args, (Command.formatAndLint bareArgs = .formatAndLint args ∨
        Command.formatAndLint bareArgs = .lint args) ∧
        OnCachePath args ⟨[0x2F, 0x70]⟩ (bareProject [] []) after place := by
  obtain ⟨after, ran⟩ := bare_rejected
  have aloof : noPrograms.Aloof := fun _ _ => rfl
  obtain ⟨out, requests, -, grows⟩ := rejected_run_leaves_files noPrograms _ _ _ _ _ aloof ran rfl
  exact ⟨after, ran, out, requests, grows⟩

end Sample

end FormatLint
