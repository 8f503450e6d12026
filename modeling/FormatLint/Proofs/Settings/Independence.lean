import FormatLint.Proofs.Batch.Placement
import FormatLint.Proofs.FileSystem.Resolve
import FormatLint.Proofs.Path.Folding

/-!
The paths of a configuration mean the same wherever the program is run. Rebased once they stay as
they are, and the settings that come of them hold no path that a working directory could move, but
for programs that are looked up by their bare names (`resolve_located`,
`settings_independent_of_directory`).
-/

namespace FormatLint

namespace Config

variable {base p : Path}

theorem rebase_of_absolute (absolute : p.isAbsolute = true) : rebase base p = p := if_pos absolute

theorem rebase_rebase (based : base.isAbsolute = true) (other p : Path) :
    rebase other (rebase base p) = rebase base p :=
  rebase_of_absolute (Settings.rebase_isAbsolute based p)

/-- A program has a place of its own, or it is a bare name. -/
theorem rebaseProgram_cases (based : base.isAbsolute = true) (p : Path) :
    (rebaseProgram base p).isAbsolute = true ∨
      rebaseProgram base p = p ∧ p.components.length ≤ 1 := by
  rw [rebaseProgram]
  split
  · exact .inl (Settings.rebase_isAbsolute based p)
  · rename_i bare
    exact .inr ⟨rfl, by omega⟩

theorem rebaseProgram_rebaseProgram (based : base.isAbsolute = true) (other p : Path) :
    rebaseProgram other (rebaseProgram base p) = rebaseProgram base p := by
  rcases rebaseProgram_cases based p with placed | ⟨bare, short⟩
  · rw [rebaseProgram, rebase_of_absolute placed, ite_self]
  · rw [bare, rebaseProgram, if_neg (by omega)]

theorem rebased_rebased (based : base.isAbsolute = true) (config : Config) (other : Path) :
    (config.rebased base).rebased other = config.rebased base := by
  have paths : rebase other ∘ rebase base = rebase base :=
    funext fun p => rebase_rebase based other p
  have programs : rebaseProgram other ∘ rebaseProgram base = rebaseProgram base :=
    funext fun p => rebaseProgram_rebaseProgram based other p
  simp only [rebased, List.map_map, Option.map_map, paths, programs]

end Config

/-- None of the paths that settings are made from is given. -/
structure RunArgs.Pathless (args : RunArgs) : Prop where
  root : args.root = none
  filesPaths : args.filesPaths = []
  ignoreFilesPaths : args.ignoreFilesPaths = []
  eslintConfigPath : args.eslintConfigPath = none
  ruleSetsPath : args.ruleSetsPath = none
  prettierConfigPath : args.prettierConfigPath = none
  outputDir : args.outputDir = none
  relativeStem : args.relativeStem = none

namespace Settings

/-- Every path starts at the root directory, but for programs without a directory. -/
structure Located (s : Settings) : Prop where
  root : s.root.isAbsolute = true
  relativeStem : s.relativeStem.isAbsolute = true
  lists : ∀ p ∈ s.filesPaths ++ s.ignoreFilesPaths, p.isAbsolute = true
  options : ∀ option ∈ [s.eslintConfigPath, s.ruleSetsPath, s.prettierConfigPath, s.outputDir],
    ∀ p ∈ option, p.isAbsolute = true
  programs : ∀ p ∈ [s.eslintBin, s.prettierBin], p.isAbsolute = true ∨ p.components.length ≤ 1

variable {isFile : Path → Bool} {base cwd root : Path}

theorem pick_absolute (based : base.isAbsolute = true) (anchored : cwd.isAbsolute = true)
    (given written : List Path) :
    ∀ p ∈ pick (given.map cwd.join) (written.map (Config.rebase base)), p.isAbsolute = true := by
  intro p member
  rw [pick] at member
  split at member
  · obtain ⟨q, -, rfl⟩ := List.mem_map.mp member
    exact rebase_isAbsolute based q
  · obtain ⟨q, -, rfl⟩ := List.mem_map.mp member
    exact Path.join_isAbsolute anchored q

theorem option_absolute (based : base.isAbsolute = true) (anchored : cwd.isAbsolute = true)
    (given written : Option Path) :
    ∀ p ∈ (given.map fun q => (cwd.join q).normalize).or (written.map (Config.rebase base)),
      p.isAbsolute = true := by
  intro p member
  cases given with
  | some q =>
    cases member
    exact (Path.isAbsolute_normalize _).trans (Path.join_isAbsolute anchored q)
  | none =>
    obtain ⟨q, -, rfl⟩ := Option.map_eq_some_iff.mp member
    exact rebase_isAbsolute based q

theorem installed_absolute (absolute : root.isAbsolute = true) (name : String) :
    (((root.joinText "node_modules").joinText ".bin").joinText name).isAbsolute = true :=
  Path.join_isAbsolute (Path.join_isAbsolute (Path.join_isAbsolute absolute _) _) _

theorem program_located (based : base.isAbsolute = true) (absolute : root.isAbsolute = true)
    (written : Option Path) {name : String} (bare : (Path.ofString name).components.length ≤ 1) :
    let program := (written.map (Config.rebaseProgram base)).getD (programFor isFile root name)
    program.isAbsolute = true ∨ program.components.length ≤ 1 := by
  cases written with
  | some p =>
    rcases Config.rebaseProgram_cases based p with placed | ⟨same, short⟩
    · exact .inl placed
    · exact .inr (by simpa [same] using short)
  | none =>
    rw [Option.map_none, Option.getD_none, programFor]
    split
    · exact .inl (installed_absolute absolute name)
    · exact .inr bare

theorem resolve_located (isFile : Path → Bool) (args : RunArgs) (config : Config)
    (based : base.isAbsolute = true) (anchored : cwd.isAbsolute = true) :
    (resolve isFile args (config.rebased base) cwd).Located := by
  have defaulted (given written : Option Path) :
      (((given.map fun q => (cwd.join q).normalize).or
        ((written.map (Config.rebase base)).map Path.normalize)).getD cwd.normalize).isAbsolute =
          true := by
    obtain ⟨names, -, shape⟩ := defaulted_normal based anchored given written
    rw [shape]
    rfl
  have rootAbsolute := defaulted args.root config.files.root
  refine ⟨rootAbsolute, defaulted args.relativeStem config.output.relativeStem, ?_, ?_, ?_⟩
  · exact List.forall_mem_append.mpr
      ⟨pick_absolute based anchored args.filesPaths config.files.includePaths,
        pick_absolute based anchored args.ignoreFilesPaths config.files.ignorePaths⟩
  · simp only [List.forall_mem_cons, List.not_mem_nil, false_implies, implies_true, and_true]
    refine ⟨option_absolute based anchored args.eslintConfigPath config.lint.eslintConfigPath,
      option_absolute based anchored args.ruleSetsPath config.lint.ruleSetsPath,
      option_absolute based anchored args.prettierConfigPath config.format.prettierConfigPath, ?_⟩
    intro p chosen
    obtain ⟨names, -, rfl⟩ := chosen_normal based anchored chosen
    rfl
  · simp only [List.forall_mem_cons, List.not_mem_nil, false_implies, implies_true, and_true]
    exact ⟨program_located based rootAbsolute config.lint.eslintBin (by decide),
      program_located based rootAbsolute config.format.prettierBin (by decide)⟩

theorem programFor_root {fs wide : FileSystem} (same : wide.root = fs.root)
    (absolute : root.isAbsolute = true) (name : String) :
    programFor wide.isFile root name = programFor fs.isFile root name := by
  have installed : wide.isFile (((root.joinText "node_modules").joinText ".bin").joinText name) =
      fs.isFile (((root.joinText "node_modules").joinText ".bin").joinText name) := by
    rw [FileSystem.isFile, FileSystem.isFile, FileSystem.stat, FileSystem.stat,
      FileSystem.resolve_root same (installed_absolute absolute name)]
  rw [programFor, programFor, installed]

/-- Nothing is left for the working directory to decide. -/
theorem resolve_pathless {config : Config} {args : RunArgs} {fs₁ fs₂ : FileSystem}
    (based : base.isAbsolute = true) (rooted : config.files.root.isSome)
    (stemmed : config.output.relativeStem.isSome) (pathless : args.Pathless)
    (same : fs₁.root = fs₂.root) (cwd₁ cwd₂ : Path) :
    resolve fs₁.isFile args (config.rebased base) cwd₁ =
      resolve fs₂.isFile args (config.rebased base) cwd₂ := by
  obtain ⟨root, rooted⟩ := Option.isSome_iff_exists.mp rooted
  obtain ⟨stem, stemmed⟩ := Option.isSome_iff_exists.mp stemmed
  have absolute : (Config.rebase base root).normalize.isAbsolute = true :=
    (Path.isAbsolute_normalize _).trans (rebase_isAbsolute based root)
  simp only [resolve, Config.rebased, rooted, stemmed, pathless.root, pathless.filesPaths,
    pathless.ignoreFilesPaths, pathless.eslintConfigPath, pathless.ruleSetsPath,
    pathless.prettierConfigPath, pathless.outputDir, pathless.relativeStem, Option.map_none,
    Option.map_some, Option.none_or, Option.getD_some, List.map_nil,
    programFor_root same absolute]

/-- A configuration that says where the root and the stem are gives the same settings in every
    working directory, as long as the command line names no path, and no path in them is read from a
    working directory later. Rebasing the configuration again changes nothing. -/
theorem settings_independent_of_directory (config : Config) (base : Path)
    (based : base.isAbsolute = true) :
    (config.files.root.isSome → config.output.relativeStem.isSome →
      ∀ args : RunArgs, args.Pathless →
        ∀ fs₁ fs₂ : FileSystem, fs₁.root = fs₂.root → ∀ cwd₁ cwd₂ : Path,
          let s := resolve fs₁.isFile args (config.rebased base) cwd₁
          s = resolve fs₂.isFile args (config.rebased base) cwd₂ ∧ s.Located) ∧
    ∀ other, (config.rebased base).rebased other = config.rebased base := by
  refine ⟨?_, Config.rebased_rebased based config⟩
  intro rooted stemmed args pathless fs₁ fs₂ same cwd₁ cwd₂ s
  refine ⟨resolve_pathless based rooted stemmed pathless same cwd₁ cwd₂, ?_⟩
  have atBase : s = resolve fs₁.isFile args (config.rebased base) base :=
    resolve_pathless based rooted stemmed pathless rfl cwd₁ base
  rw [atBase]
  exact resolve_located fs₁.isFile args config based based

/-- A project below `/p` that has its own `prettier`. -/
def installedTree : Node :=
  .dir [(Utf8.encode "p", .dir [(Utf8.encode "r", .dir [(Utf8.encode "node_modules",
    .dir [(Utf8.encode ".bin", .dir [(Utf8.encode "prettier", .file { content := .empty })])])])])]

theorem settings_independent_of_directory_sample :
    let config : Config := {
      files := { root := some (Path.ofString "r"), ignorePaths := [Path.ofString "ignored"] }
      lint := { eslintBin := some (Path.ofString "bin/eslint") }
      output := { relativeStem := some (Path.ofString ".") } }
    let base := Path.ofString "/p"
    let home := Path.ofString "/home"
    let s := resolve (FileSystem.isFile ⟨installedTree, base⟩) {} (config.rebased base) base
    (s = resolve (FileSystem.isFile ⟨installedTree, home⟩) {} (config.rebased base) home ∧
      s.Located) ∧
    (config.rebased base).rebased home = config.rebased base := by
  intro config base home s
  obtain ⟨same, again⟩ := settings_independent_of_directory config base (by decide)
  exact ⟨same rfl rfl {} ⟨rfl, rfl, rfl, rfl, rfl, rfl, rfl, rfl⟩ ⟨installedTree, base⟩
    ⟨installedTree, home⟩ rfl base home, again home⟩

end Settings

end FormatLint
