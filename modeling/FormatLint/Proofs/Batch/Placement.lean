import FormatLint.Batch.Target
import FormatLint.Proofs.Path.Join
import FormatLint.Settings.Resolve
import Mathlib.Data.List.Infix

/-!
Places below the output directory. The paths of the settings are normal, whichever of the command
line, the configuration and the working directory they come from, so that a file below the stem has
a place of its own below the output directory and any other file has none.
-/

namespace FormatLint

namespace Batch

/-- A file has a place if its normal form starts with that of the stem, and what comes after is
    placed below the output directory. -/
theorem reroot_iff {file stem output target : Path} :
    reroot file stem output = .ok target ↔
      ∃ rest, file.normalize.components = stem.normalize.components ++ rest ∧
        target = output.normalize.join (Path.ofComponents rest) := by
  rw [reroot, Path.below?]
  cases stripped : Path.stripComponents stem.normalize.components file.normalize.components with
  | none =>
    constructor
    · intro failed
      cases failed
    · intro placed
      obtain ⟨rest, split, -⟩ := placed
      rw [Path.stripComponents_eq_some.mpr split] at stripped
      cases stripped
  | some cs =>
    have split := Path.stripComponents_eq_some.mp stripped
    constructor
    · intro placed
      exact ⟨cs, split, (Except.ok.inj placed).symm⟩
    · intro placed
      obtain ⟨rest, split', rfl⟩ := placed
      rw [split, List.append_cancel_left_eq] at split'
      rw [split']
      rfl

theorem reroot_of_prefix {file stem : Path} (output : Path)
    (below : stem.normalize.components <+: file.normalize.components) :
    ∃ target, reroot file stem output = .ok target := by
  obtain ⟨rest, split⟩ := below
  exact ⟨_, reroot_iff.mpr ⟨rest, split.symm, rfl⟩⟩

/-- A file that lies below the stem keeps what comes after it. -/
theorem reroot_eq_ok {file stem output target : Path} {files stems : List Bytes}
    (properFile : ∀ n ∈ files, Path.IsName n) (properStem : ∀ n ∈ stems, Path.IsName n)
    (normalFile : file.normalize = Path.rooted files)
    (normalStem : stem.normalize = Path.rooted stems) :
    reroot file stem output = .ok target ↔
      ∃ names, files = stems ++ names ∧ target = output.normalize.join ⟨Path.unsplit names⟩ := by
  rw [reroot_iff, normalFile, normalStem, Path.components_rooted properFile,
    Path.components_rooted properStem]
  simp only [List.cons_append, List.cons.injEq, true_and]
  constructor
  · intro placed
    obtain ⟨rest, split, rfl⟩ := placed
    obtain ⟨front, names, rfl, sameStem, rfl⟩ := List.map_eq_append_iff.mp split
    obtain rfl : front = stems := Path.map_name_injective sameStem
    have below : ∀ n ∈ names, Path.IsName n := fun n member =>
      properFile n (List.mem_append_right _ member)
    exact ⟨names, rfl, by rw [Path.ofComponents_names below]⟩
  · intro placed
    obtain ⟨names, rfl, rfl⟩ := placed
    have below : ∀ n ∈ names, Path.IsName n := fun n member =>
      properFile n (List.mem_append_right _ member)
    exact ⟨names.map .name, List.map_append, by rw [Path.ofComponents_names below]⟩

/-- A normal absolute file goes to names below the output directory, which tell it from others. -/
theorem reroot_names {file stem output target : Path} {files : List Bytes}
    (proper : ∀ n ∈ files, Path.IsName n) (normal : file.normalize = Path.rooted files)
    (placed : reroot file stem output = .ok target) :
    ∃ names, (∀ n ∈ names, Path.IsName n) ∧
      file.normalize.components = stem.normalize.components ++ names.map .name ∧
      target = output.normalize.join ⟨Path.unsplit names⟩ := by
  obtain ⟨rest, split, rfl⟩ := reroot_iff.mp placed
  obtain ⟨-, -, -, -, filled⟩ := stem.normalize_form
  obtain ⟨first, lead, stems⟩ := List.exists_cons_of_ne_nil (Path.components_ne_nil filled)
  have whole := split
  rw [normal, Path.components_rooted proper, stems, List.cons_append, List.cons.injEq] at whole
  obtain ⟨front, names, rfl, -, rfl⟩ := List.map_eq_append_iff.mp whole.2
  have below : ∀ n ∈ names, Path.IsName n := fun n member =>
    proper n (List.mem_append_right _ member)
  exact ⟨names, below, split, by rw [Path.ofComponents_names below]⟩

end Batch

namespace Settings

section Chosen

variable {base cwd : Path} {given written : Option Path}

theorem rebase_isAbsolute (based : base.isAbsolute = true) (p : Path) :
    (Config.rebase base p).isAbsolute = true := by
  rw [Config.rebase]
  split
  · assumption
  · exact Path.join_isAbsolute based p

theorem chosen_normal (based : base.isAbsolute = true) (anchored : cwd.isAbsolute = true) {p : Path}
    (chosen : (given.map fun q => (cwd.join q).normalize).or
      ((written.map (Config.rebase base)).map Path.normalize) = some p) :
    ∃ names, (∀ n ∈ names, Path.IsName n) ∧ p = Path.rooted names := by
  cases given with
  | some q =>
    cases chosen
    exact Path.normalize_absolute (Path.join_isAbsolute anchored q)
  | none =>
    cases written with
    | none => cases chosen
    | some q =>
      cases chosen
      exact Path.normalize_absolute (rebase_isAbsolute based q)

theorem defaulted_normal (based : base.isAbsolute = true) (anchored : cwd.isAbsolute = true)
    (given written : Option Path) :
    ∃ names, (∀ n ∈ names, Path.IsName n) ∧
      ((given.map fun q => (cwd.join q).normalize).or
        ((written.map (Config.rebase base)).map Path.normalize)).getD cwd.normalize =
          Path.rooted names := by
  cases chosen : (given.map fun q => (cwd.join q).normalize).or
      ((written.map (Config.rebase base)).map Path.normalize) with
  | none => exact Path.normalize_absolute anchored
  | some p => exact chosen_normal based anchored chosen

end Chosen

/-- The root, the stem and the output directory are absolute and free of `.` and `..`. A file has a
    target exactly if it lies below the stem; the target is what comes after the stem, placed below
    the output directory, and no other file has it. -/
theorem redirection_stays_below_output (isFile : Path → Bool) (args : RunArgs) (config : Config)
    (base cwd : Path) (based : base.isAbsolute = true) (anchored : cwd.isAbsolute = true) :
    let s := resolve isFile args (config.rebased base) cwd
    s.root.Anchored ∧ s.relativeStem.Anchored ∧
    ∀ output, s.outputDir = some output →
      output.Anchored ∧
      ∀ file : Path, file.isAbsolute = true →
        ((∃ target, Batch.reroot file s.relativeStem output = .ok target) ↔
          s.relativeStem.components <+: file.normalize.components) ∧
        (∀ target, Batch.reroot file s.relativeStem output = .ok target →
          target.Anchored ∧
          ∃ rest, file.normalize.components = s.relativeStem.components ++ rest ∧
            target.components = output.components ++ rest ∧
            .here ∉ rest ∧ .up ∉ rest) ∧
        ∀ other : Path, other.isAbsolute = true → file.normalize ≠ other.normalize →
          ∀ target place, Batch.reroot file s.relativeStem output = .ok target →
            Batch.reroot other s.relativeStem output = .ok place →
              target.components ≠ place.components := by
  intro s
  obtain ⟨roots, properRoot, root⟩ :=
    defaulted_normal based anchored args.root config.files.root
  obtain ⟨stems, properStem, stem⟩ :=
    defaulted_normal based anchored args.relativeStem config.output.relativeStem
  have root' : s.root = Path.rooted roots := root
  have stem' : s.relativeStem = Path.rooted stems := stem
  rw [root', stem']
  refine ⟨Path.anchored_rooted properRoot, Path.anchored_rooted properStem, ?_⟩
  intro output chosen
  obtain ⟨outs, properOut, rfl⟩ := chosen_normal based anchored chosen
  refine ⟨Path.anchored_rooted properOut, ?_⟩
  -- what it means for a file to have a target, in names
  have placed {file : Path} {files : List Bytes} (proper : ∀ n ∈ files, Path.IsName n)
      (normal : file.normalize = Path.rooted files) (target : Path) :
      Batch.reroot file (Path.rooted stems) (Path.rooted outs) = .ok target ↔
        ∃ names, files = stems ++ names ∧
          target = (Path.rooted outs).join ⟨Path.unsplit names⟩ := by
    rw [Batch.reroot_eq_ok proper properStem normal (Path.normalize_rooted properStem),
      Path.normalize_rooted properOut]
  intro file absolute
  obtain ⟨files, properFile, normalFile⟩ := Path.normalize_absolute absolute
  refine ⟨?_, ?_, ?_⟩
  · simp only [placed properFile normalFile, normalFile, Path.components_rooted properFile,
      Path.components_rooted properStem, List.cons_prefix_cons, true_and,
      List.prefix_map_iff_of_injective Path.name_injective]
    constructor
    · intro found
      obtain ⟨target, names, split, -⟩ := found
      exact ⟨names, split.symm⟩
    · intro below
      obtain ⟨names, split⟩ := below
      exact ⟨_, names, split.symm, rfl⟩
  · intro target found
    obtain ⟨names, rfl, rfl⟩ := (placed properFile normalFile target).mp found
    have properRest : ∀ n ∈ names, Path.IsName n := fun n member =>
      properFile n (List.mem_append_right _ member)
    refine ⟨Path.anchored_rooted_join properOut properRest, names.map .name, ?_, ?_, ?_, ?_⟩
    · rw [normalFile, Path.components_rooted properFile, Path.components_rooted properStem,
        List.map_append, List.cons_append]
    · rw [Path.components_rooted_join properOut properRest, Path.components_rooted properOut,
        List.map_append, List.cons_append]
    · simp
    · simp
  · intro other absoluteOther apart target place found foundOther same
    obtain ⟨others, properOther, normalOther⟩ := Path.normalize_absolute absoluteOther
    obtain ⟨names, rfl, rfl⟩ := (placed properFile normalFile target).mp found
    obtain ⟨more, rfl, rfl⟩ := (placed properOther normalOther place).mp foundOther
    rw [Path.components_rooted_join properOut fun n member =>
        properFile n (List.mem_append_right _ member),
      Path.components_rooted_join properOut fun n member =>
        properOther n (List.mem_append_right _ member)] at same
    have rests : names = more := by
      simpa [Path.map_name_injective.eq_iff] using same
    exact apart (by rw [normalFile, normalOther, rests])

/-- From `/p/q`, with the output directory `../o` on the command line and the stem `.//s/..` in a
    configuration of `/p`, the file `/p/a/../b` goes to `/p/o/b` and `/x` goes nowhere. -/
theorem redirection_stays_below_output_sample :
    let s := resolve (fun _ => false) { outputDir := some ⟨[0x2E, 0x2E, 0x2F, 0x6F]⟩ }
      (Config.rebased
        { output := { relativeStem := some ⟨[0x2E, 0x2F, 0x2F, 0x73, 0x2F, 0x2E, 0x2E]⟩ } }
        ⟨[0x2F, 0x70]⟩)
      ⟨[0x2F, 0x70, 0x2F, 0x71]⟩
    let output : Path := ⟨[0x2F, 0x70, 0x2F, 0x6F]⟩
    s.outputDir = some output ∧
    (∃ target, Batch.reroot ⟨[0x2F, 0x70, 0x2F, 0x61, 0x2F, 0x2E, 0x2E, 0x2F, 0x62]⟩ s.relativeStem
      output = .ok target ∧ target.Anchored ∧ target.components = output.components ++ [.name [0x62]]) ∧
    ¬ ∃ target, Batch.reroot ⟨[0x2F, 0x78]⟩ s.relativeStem output = .ok target := by
  intro s output
  have chosen : s.outputDir = some output := by decide
  obtain ⟨-, -, redirected⟩ := redirection_stays_below_output (fun _ => false)
    { outputDir := some ⟨[0x2E, 0x2E, 0x2F, 0x6F]⟩ }
    { output := { relativeStem := some ⟨[0x2E, 0x2F, 0x2F, 0x73, 0x2F, 0x2E, 0x2E]⟩ } }
    ⟨[0x2F, 0x70]⟩ ⟨[0x2F, 0x70, 0x2F, 0x71]⟩ rfl rfl
  obtain ⟨-, files⟩ := redirected output chosen
  obtain ⟨inside, placed, -⟩ :=
    files ⟨[0x2F, 0x70, 0x2F, 0x61, 0x2F, 0x2E, 0x2E, 0x2F, 0x62]⟩ rfl
  obtain ⟨outside, -, -⟩ := files ⟨[0x2F, 0x78]⟩ rfl
  refine ⟨chosen, ?_, fun found => absurd (outside.mp found) (by decide)⟩
  obtain ⟨target, found⟩ := inside.mpr (by decide)
  obtain ⟨straight, rest, split, components, -⟩ := placed target found
  refine ⟨target, found, straight, ?_⟩
  have same : s.relativeStem.components ++ rest = s.relativeStem.components ++ [.name [0x62]] := by
    rw [← split]
    decide
  rw [components, List.append_cancel_left same]

end Settings

end FormatLint
