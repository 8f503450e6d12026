import FormatLint.Settings.Args
import FormatLint.Proofs.Text.Utf8

/-!
Occurrences of options, without regard to how they are written. Taken into account one after the
other they give the options that they set, in whatever order they come (`Sets.acceptAll`).
-/

namespace FormatLint

namespace Args

def onePath? (path : Option Path) : Option (List Bytes) := path.map fun p => [p.bytes]

def listed? (values : List Bytes) : Option (List Bytes) :=
  if values.isEmpty then none else some values

def switched? (on : Bool) : Option (List Bytes) := if on then some [] else none

end Args

open Args

/-- The values of an option, if it is set. -/
def RunArgs.values? (args : RunArgs) : Flag → Option (List Bytes)
  | .config => onePath? args.config
  | .files => listed? (args.files.map Utf8.encode)
  | .filesPaths => listed? (args.filesPaths.map Path.bytes)
  | .ignoreFiles => listed? (args.ignoreFiles.map Utf8.encode)
  | .ignoreFilesPaths => listed? (args.ignoreFilesPaths.map Path.bytes)
  | .root => onePath? args.root
  | .eslintConfigPath => onePath? args.eslintConfigPath
  | .ruleSetsPath => onePath? args.ruleSetsPath
  | .ignorePackageSettings => switched? args.ignorePackageSettings
  | .noStandardIgnores => switched? args.noStandardIgnores
  | .outputDir => onePath? args.outputDir
  | .relativeStem => onePath? args.relativeStem
  | .prettierConfigPath => onePath? args.prettierConfigPath
  | .help | .version => none

namespace Args

/-- One occurrence of an option, with the values that it is given there. -/
structure Use where
  flag : Flag
  values : List Bytes

/-- The values at each occurrence of an option. -/
def occurrences (uses : List Use) (flag : Flag) : List (List Bytes) :=
  (uses.filter (·.flag = flag)).map Use.values

/-- A word that is no option. -/
structure IsValue (value : Bytes) : Prop where
  filled : value ≠ []
  undashed : value.head? ≠ some dash

instance (value : Bytes) : Decidable (IsValue value) :=
  decidable_of_iff (value ≠ [] ∧ value.head? ≠ some dash)
    ⟨fun ⟨filled, undashed⟩ => ⟨filled, undashed⟩, fun ⟨filled, undashed⟩ => ⟨filled, undashed⟩⟩

/-- An occurrence with values that its option admits. -/
inductive Use.Sound : Use → Prop where
  | switch {flag : Flag} (kind : flag = .ignorePackageSettings ∨ flag = .noStandardIgnores) :
      Sound ⟨flag, []⟩
  | path {flag : Flag} {value : Bytes} (takes : flag.takesValue = true)
      (single : flag.isList = false) (plain : IsValue value) : Sound ⟨flag, [value]⟩
  | list {flag : Flag} {values : List Bytes} (list : flag.isList = true) (filled : values ≠ [])
      (plain : ∀ value ∈ values, IsValue value)
      (text : flag = .files ∨ flag = .ignoreFiles → ∀ value ∈ values, ∃ s, Utf8.encode s = value) :
      Sound ⟨flag, values⟩

section

variable {values more : List Bytes}

theorem onePath?_eq_none {path : Option Path} : onePath? path = none ↔ path = none :=
  Option.map_eq_none_iff

theorem switched?_eq_none {on : Bool} : switched? on = none ↔ on = false := by
  cases on <;> simp [switched?]

theorem switched?_eq_some {on : Bool} (set : switched? on = some values) : values = [] := by
  cases on <;> cases set
  rfl

theorem listed?_append (filled : more ≠ []) :
    listed? (values ++ more) = some ((listed? values).getD [] ++ more) := by
  cases values with
  | nil => simp [listed?, filled]
  | cons value values => simp [listed?]

theorem onePath_single {value : Bytes} (filled : value ≠ []) :
    onePath none [value] = .ok (some ⟨value⟩) := by
  simp [onePath, filled]

theorem morePaths_filled (filled : ∀ value ∈ values, value ≠ []) (present : List Path) :
    morePaths present values = .ok (present ++ values.map Path.mk) := by
  have noneEmpty : ¬ values.any List.isEmpty = true := by
    intro found
    obtain ⟨value, member, empty⟩ := List.any_eq_true.mp found
    exact filled value member (List.isEmpty_iff.mp empty)
  rw [morePaths, if_neg noneEmpty]

theorem morePatterns_text (text : ∀ value ∈ values, ∃ s, Utf8.encode s = value) :
    ∃ patterns, patterns.map Utf8.encode = values ∧
      ∀ present, morePatterns present values = .ok (present ++ patterns) := by
  have read : ∃ patterns, patterns.map Utf8.encode = values ∧
      values.mapM Utf8.decode? = some patterns := by
    induction values with
    | nil => exact ⟨[], rfl, rfl⟩
    | cons value values ih =>
      rw [List.forall_mem_cons] at text
      obtain ⟨⟨s, rfl⟩, later⟩ := text
      obtain ⟨patterns, rfl, read⟩ := ih later
      refine ⟨s :: patterns, rfl, ?_⟩
      rw [List.mapM_cons, Utf8.decode?_encode, read]
      rfl
  obtain ⟨patterns, written, read⟩ := read
  exact ⟨patterns, written, fun present => by rw [morePatterns, read]⟩

end

/-- What an occurrence makes of the options: it adds its values to those of its option. -/
def Adds (use : Use) (before after : RunArgs) : Prop :=
  ∀ flag, after.values? flag =
    if flag = use.flag then some ((before.values? flag).getD [] ++ use.values)
    else before.values? flag

theorem accept_switch {flag : Flag}
    (kind : flag = .ignorePackageSettings ∨ flag = .noStandardIgnores) {before : RunArgs}
    (free : before.values? flag = none) :
    ∃ after, accept before flag [] = .ok after ∧ Adds ⟨flag, []⟩ before after := by
  rcases kind with rfl | rfl
  all_goals
    have off := switched?_eq_none.mp free
    refine ⟨_, by simp [accept, Flag.takesValue, off, switchOn]; rfl, ?_⟩
    intro other
    cases other <;> simp [RunArgs.values?, switched?, off]

theorem accept_path {flag : Flag} {value : Bytes} (takes : flag.takesValue = true)
    (single : flag.isList = false) (filled : value ≠ []) {before : RunArgs}
    (free : before.values? flag = none) :
    ∃ after, accept before flag [value] = .ok after ∧ Adds ⟨flag, [value]⟩ before after := by
  cases flag <;> cases takes <;> cases single
  all_goals
    have unset := onePath?_eq_none.mp free
    refine ⟨_, by simp [accept, Flag.takesValue, unset, onePath_single filled]; rfl, ?_⟩
    intro other
    cases other <;> simp [RunArgs.values?, onePath?, unset]

theorem accept_list {flag : Flag} {values : List Bytes} (list : flag.isList = true)
    (given : values ≠ []) (filled : ∀ value ∈ values, value ≠ [])
    (text : flag = .files ∨ flag = .ignoreFiles → ∀ value ∈ values, ∃ s, Utf8.encode s = value)
    (before : RunArgs) :
    ∃ after, accept before flag values = .ok after ∧ Adds ⟨flag, values⟩ before after := by
  cases flag <;> cases list
  case files | ignoreFiles =>
    obtain ⟨patterns, written, read⟩ := morePatterns_text (text (by simp))
    refine ⟨_, by simp [accept, Flag.takesValue, given, read]; rfl, ?_⟩
    intro other
    cases other <;> simp [RunArgs.values?, written, listed?_append given]
  case filesPaths | ignoreFilesPaths =>
    refine ⟨_, by simp [accept, Flag.takesValue, given, morePaths_filled filled]; rfl, ?_⟩
    intro other
    cases other <;> simp [RunArgs.values?, Function.comp_def, listed?_append given]

theorem accept_sound {use : Use} (sound : use.Sound) {before : RunArgs}
    (free : use.flag.isList = false → before.values? use.flag = none) :
    ∃ after, accept before use.flag use.values = .ok after ∧ Adds use before after := by
  cases sound with
  | switch kind =>
    refine accept_switch kind (free ?_)
    rcases kind with rfl | rfl <;> rfl
  | path takes single plain => exact accept_path takes single plain.filled (free single)
  | list list given plain text =>
    exact accept_list list given (fun value member => (plain value member).filled) text before

/-- Takes occurrences into account, from the first to the last. -/
def acceptAll (before : RunArgs) (uses : List Use) : Except Stop RunArgs :=
  uses.foldlM (fun args use => accept args use.flag use.values) before

section

variable {use : Use} {uses : List Use} {flag : Flag}

theorem occurrences_self (use : Use) (uses : List Use) :
    occurrences (use :: uses) use.flag = use.values :: occurrences uses use.flag := by
  simp [occurrences]

theorem occurrences_other (other : flag ≠ use.flag) (uses : List Use) :
    occurrences (use :: uses) flag = occurrences uses flag := by
  simp [occurrences, Ne.symm other]

theorem mem_occurrences (member : use ∈ uses) : use.values ∈ occurrences uses use.flag :=
  List.mem_map_of_mem (List.mem_filter.mpr ⟨member, by simp⟩)

theorem acceptAll_sound (sound : ∀ use ∈ uses, use.Sound)
    (apart : uses.Pairwise fun use other => use.flag = other.flag → use.flag.isList = true)
    (before : RunArgs)
    (free : ∀ use ∈ uses, use.flag.isList = false → before.values? use.flag = none) :
    ∃ after, acceptAll before uses = .ok after ∧ ∀ flag, after.values? flag =
      if occurrences uses flag = [] then before.values? flag
      else some ((before.values? flag).getD [] ++ (occurrences uses flag).flatten) := by
  induction uses generalizing before with
  | nil => exact ⟨before, rfl, fun flag => rfl⟩
  | cons use uses ih =>
    rw [List.forall_mem_cons] at sound free
    rw [List.pairwise_cons] at apart
    obtain ⟨middle, accepted, adds⟩ := accept_sound sound.1 free.1
    have still : ∀ other ∈ uses, other.flag.isList = false → middle.values? other.flag = none := by
      intro other member single
      have distinct : other.flag ≠ use.flag := by
        intro same
        have list := apart.1 other member same.symm
        rw [← same, single] at list
        cases list
      rw [adds, if_neg distinct]
      exact free.2 other member single
    obtain ⟨after, rest, values⟩ := ih sound.2 apart.2 middle still
    refine ⟨after, ?_, ?_⟩
    · rw [acceptAll, List.foldlM_cons, accepted]
      exact rest
    · intro flag
      rw [values, adds]
      by_cases same : flag = use.flag
      · subst same
        rw [occurrences_self, if_pos rfl, if_neg (List.cons_ne_nil _ _), List.flatten_cons,
          Option.getD_some, ← List.append_assoc]
        split
        · rename_i last
          rw [last, List.flatten_nil, List.append_nil]
        · rfl
      · rw [occurrences_other same, if_neg same]

end

/-- Occurrences that set just the options of `args`: one of each that is set, or several of a list
    option, whose values follow each other in their order. -/
structure Sets (uses : List Use) (args : RunArgs) : Prop where
  once : ∀ flag, flag.isList = false → occurrences uses flag = (args.values? flag).toList
  filled : ∀ use ∈ uses, use.flag.isList = true → use.values ≠ []
  inOrder : ∀ flag, flag.isList = true →
    (occurrences uses flag).flatten = (args.values? flag).getD []

end Args

/-- Options whose texts and paths are not empty and do not start with a dash. -/
def RunArgs.Plain (args : RunArgs) : Prop :=
  ∀ flag, ∀ values ∈ args.values? flag, ∀ value ∈ values, IsValue value

namespace Args

section

variable {flag : Flag} {args : RunArgs} {values : List Bytes}

theorem onePath?_injective {a b : Option Path} (same : onePath? a = onePath? b) : a = b := by
  refine Option.map_injective ?_ same
  rintro ⟨x⟩ ⟨y⟩ equal
  simpa using equal

theorem listed?_injective {a b : List Bytes} (same : listed? a = listed? b) : a = b := by
  cases a <;> cases b <;> simp_all [listed?]

theorem switched?_injective {a b : Bool} (same : switched? a = switched? b) : a = b := by
  cases a <;> cases b <;> first | rfl | cases same

theorem values?_injective {a b : RunArgs} (same : ∀ flag, a.values? flag = b.values? flag) :
    a = b := by
  have texts {x y : List String} (h : listed? (x.map Utf8.encode) = listed? (y.map Utf8.encode)) :
      x = y :=
    (List.map_inj_right fun _ _ => Utf8.encode_injective).mp (listed?_injective h)
  have paths {x y : List Path} (h : listed? (x.map Path.bytes) = listed? (y.map Path.bytes)) :
      x = y := by
    refine (List.map_inj_right ?_).mp (listed?_injective h)
    rintro ⟨p⟩ ⟨q⟩ equal
    exact congrArg Path.mk equal
  have config := onePath?_injective (same .config)
  have files := texts (same .files)
  have filesPaths := paths (same .filesPaths)
  have ignoreFiles := texts (same .ignoreFiles)
  have ignoreFilesPaths := paths (same .ignoreFilesPaths)
  have root := onePath?_injective (same .root)
  have eslintConfigPath := onePath?_injective (same .eslintConfigPath)
  have ruleSetsPath := onePath?_injective (same .ruleSetsPath)
  have ignorePackageSettings := switched?_injective (same .ignorePackageSettings)
  have noStandardIgnores := switched?_injective (same .noStandardIgnores)
  have outputDir := onePath?_injective (same .outputDir)
  have relativeStem := onePath?_injective (same .relativeStem)
  have prettierConfigPath := onePath?_injective (same .prettierConfigPath)
  cases a
  cases b
  simp_all

theorem values?_path (takes : flag.takesValue = true) (single : flag.isList = false)
    (set : args.values? flag = some values) : ∃ value, values = [value] := by
  cases flag <;> cases takes <;> cases single
  all_goals
    obtain ⟨path, -, rfl⟩ := Option.map_eq_some_iff.mp set
    exact ⟨path.bytes, rfl⟩

theorem values?_switch (bare : flag.takesValue = false) (set : args.values? flag = some values) :
    (flag = .ignorePackageSettings ∨ flag = .noStandardIgnores) ∧ values = [] := by
  cases flag <;> cases bare
  case ignorePackageSettings | noStandardIgnores => exact ⟨by simp, switched?_eq_some set⟩
  case help | version => cases set

theorem listed?_getD (values : List Bytes) : (listed? values).getD [] = values := by
  cases values <;> rfl

theorem values?_text (text : flag = .files ∨ flag = .ignoreFiles) :
    ∀ value ∈ (args.values? flag).getD [], ∃ s, Utf8.encode s = value := by
  intro value member
  rcases text with rfl | rfl
  all_goals
    rw [RunArgs.values?, listed?_getD] at member
    obtain ⟨s, -, rfl⟩ := List.mem_map.mp member
    exact ⟨s, rfl⟩

/-- A list option that is set has a value. -/
theorem values?_list (list : flag.isList = true) :
    args.values? flag = listed? ((args.values? flag).getD []) := by
  cases flag <;> cases list
  all_goals rw [RunArgs.values?, listed?_getD]

end

namespace Sets

variable {uses : List Use} {args : RunArgs}

theorem value_mem (sets : Sets uses args) {use : Use} (member : use ∈ uses)
    (list : use.flag.isList = true) {value : Bytes} (inside : value ∈ use.values) :
    value ∈ (args.values? use.flag).getD [] := by
  rw [← sets.inOrder use.flag list]
  exact List.mem_flatten.mpr ⟨use.values, mem_occurrences member, inside⟩

theorem sound (sets : Sets uses args) (plain : args.Plain) : ∀ use ∈ uses, use.Sound := by
  intro use member
  have occurs := mem_occurrences member
  by_cases list : use.flag.isList = true
  · refine .list list (sets.filled use member list) ?_ ?_
    · intro value inside
      have given := sets.value_mem member list inside
      cases set : args.values? use.flag with
      | none => simp [set] at given
      | some values =>
        rw [set] at given
        exact plain use.flag values set value given
    · intro text value inside
      exact values?_text text value (sets.value_mem member list inside)
  · have single : use.flag.isList = false := by simpa using list
    rw [sets.once use.flag single, Option.mem_toList] at occurs
    have set : args.values? use.flag = some use.values := occurs
    obtain ⟨flag, values⟩ := use
    by_cases takes : flag.takesValue = true
    · obtain ⟨value, rfl⟩ := values?_path takes single set
      exact .path takes single (plain flag _ set value (by simp))
    · obtain ⟨kind, rfl⟩ := values?_switch (by simpa using takes) set
      exact .switch kind

theorem apart (sets : Sets uses args) :
    uses.Pairwise fun use other => use.flag = other.flag → use.flag.isList = true := by
  rw [List.pairwise_iff_forall_sublist]
  intro use other pair same
  rw [← Bool.not_eq_false]
  intro single
  -- both would be occurrences of an option that has one at most
  have both := (pair.filter (·.flag = use.flag)).length_le
  have once := congrArg List.length (sets.once use.flag single)
  rw [occurrences, List.length_map] at once
  have few : (args.values? use.flag).toList.length ≤ 1 := by cases args.values? use.flag <;> simp
  simp only [List.filter_cons, same, decide_true, if_true, List.filter_nil, List.length_cons,
    List.length_nil] at both
  rw [same] at once few
  omega

/-- Every occurrence of a list option has a value. -/
theorem flatten_eq_nil (sets : Sets uses args) {flag : Flag} (list : flag.isList = true) :
    (occurrences uses flag).flatten = [] ↔ occurrences uses flag = [] := by
  rw [List.flatten_eq_nil_iff]
  constructor
  · intro empty
    refine List.eq_nil_iff_forall_not_mem.mpr fun values member => ?_
    obtain ⟨use, kept, rfl⟩ := List.mem_map.mp member
    obtain ⟨there, isFlag⟩ := List.mem_filter.mp kept
    have flagged : use.flag = flag := by simpa using isFlag
    exact sets.filled use there (flagged ▸ list) (empty _ member)
  · intro absent values member
    rw [absent] at member
    cases member

theorem acceptAll (sets : Sets uses args) (plain : args.Plain) :
    acceptAll {} uses = .ok args := by
  have unset (flag : Flag) : RunArgs.values? {} flag = none := by cases flag <;> rfl
  obtain ⟨after, accepted, values⟩ :=
    acceptAll_sound (sets.sound plain) sets.apart {} fun use _ _ => unset use.flag
  have same : after = args := by
    apply values?_injective
    intro flag
    rw [values flag, unset flag, Option.getD_none, List.nil_append]
    by_cases list : flag.isList = true
    · rw [values?_list list, ← sets.inOrder flag list, listed?]
      simp only [List.isEmpty_iff, sets.flatten_eq_nil list]
    · rw [sets.once flag (by simpa using list)]
      cases args.values? flag <;> simp
  rw [accepted, same]

end Sets

end Args

end FormatLint
