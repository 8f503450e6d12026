import FormatLint.Proofs.Settings.Occurrence
import Mathlib.Data.List.TakeWhile

/-!
Command lines that are written for given options. Words that do not look like options are values of
the option before them, so that every order and every way to write the options is read as meant.
-/

namespace FormatLint.Args

/-- The ways to write an occurrence of an option. -/
inductive Use.Written : Use → List Bytes → Prop where
  | long (flag : Flag) (values : List Bytes) :
      Written ⟨flag, values⟩ ((dash :: dash :: Utf8.encode flag.long) :: values)
  | longJoined (flag : Flag) (value : Bytes) :
      Written ⟨flag, [value]⟩ [dash :: dash :: (Utf8.encode flag.long ++ equals :: value)]
  | short {flag : Flag} {letter : UInt8} (named : flag.short? = some letter)
      (values : List Bytes) : Written ⟨flag, values⟩ ([dash, letter] :: values)
  | shortEquals {flag : Flag} {letter : UInt8} (named : flag.short? = some letter)
      (value : Bytes) : Written ⟨flag, [value]⟩ [dash :: letter :: equals :: value]
  | shortJoined {flag : Flag} {letter : UInt8} (named : flag.short? = some letter)
      {value : Bytes} (apart : value.head? ≠ some equals) :
      Written ⟨flag, [value]⟩ [dash :: letter :: value]

/-- A line with the occurrences that it is written for. -/
inductive Line : List Use → List Bytes → Prop where
  | nil : Line [] []
  | cons {use : Use} {uses : List Use} {words rest : List Bytes} (written : use.Written words)
      (later : Line uses rest) : Line (use :: uses) (words ++ rest)

namespace Flag

theorem long_injective {a b : Flag} (same : a.long = b.long) : a = b := by
  cases a <;> cases b <;> first | rfl | exact absurd same (by decide)

theorem short?_injective {a b : Flag} {letter : UInt8} (first : a.short? = some letter)
    (second : b.short? = some letter) : a = b := by
  cases a <;> cases first <;> cases b <;> first | rfl | cases second

theorem encode_long_ne_nil (flag : Flag) : Utf8.encode flag.long ≠ [] := by
  cases flag <;> decide

/-- The first `=` of a word ends the name of its option. -/
theorem no_equals (flag : Flag) : ∀ b ∈ Utf8.encode flag.long, (b != equals) = true := by
  have named : '=' ∉ flag.long.toList := by cases flag <;> decide
  intro b inside
  rw [bne_iff_ne]
  rintro rfl
  obtain ⟨c, member, part⟩ := List.mem_flatMap.mp inside
  have same : c = '=' := Char.toNat_inj.mp (Utf8.ascii_of_mem_encodeChar part (by decide))
  exact named (same ▸ member)

theorem short?_ne_dash {flag : Flag} {letter : UInt8} (named : flag.short? = some letter) :
    letter ≠ dash := by
  cases flag <;> cases named <;> decide

theorem mem_run {flag : Flag} (takes : flag.takesValue = true) : flag ∈ run := by
  cases flag <;> cases takes <;> decide

theorem takesValue_of_isList {flag : Flag} (list : flag.isList = true) :
    flag.takesValue = true := by
  cases flag <;> cases list <;> rfl

end Flag

/-- A place where all options can stand and no command looks like one. -/
structure Scope.Ready (scope : Scope) : Prop where
  flags : ∀ flag ∈ Flag.run, flag ∈ scope.flags
  commands : ∀ name ∈ scope.commands, (Utf8.encode name).head? ≠ some dash

theorem topScope_ready : topScope.Ready := ⟨by decide, by decide⟩

theorem commandScope_ready : commandScope.Ready := ⟨by decide, by decide⟩

section

variable {scope : Scope} {flag : Flag}

theorem find?_only {flags : List Flag} {p : Flag → Bool} (member : flag ∈ flags)
    (holds : p flag = true) (only : ∀ other, p other = true → other = flag) :
    flags.find? p = some flag := by
  obtain ⟨found, isFound⟩ : ∃ found, flags.find? p = some found := by
    rw [← Option.isSome_iff_exists, List.find?_isSome]
    exact ⟨flag, member, holds⟩
  rw [isFound, only found (List.find?_some isFound)]

theorem find?_long (member : flag ∈ scope.flags) :
    scope.flags.find? (Utf8.encode ·.long == Utf8.encode flag.long) = some flag := by
  refine find?_only member (by simp) fun other same => ?_
  exact Flag.long_injective (Utf8.encode_injective (eq_of_beq same))

theorem find?_short {letter : UInt8} (named : flag.short? = some letter)
    (member : flag ∈ scope.flags) : scope.flags.find? (·.short? == some letter) = some flag := by
  refine find?_only member (by simp [named]) fun other same => ?_
  exact Flag.short?_injective (eq_of_beq same) named

theorem longOption_bare (member : flag ∈ scope.flags) (s : State) :
    longOption scope s (Utf8.encode flag.long) =
      if flag.takesValue then s.collect flag else s.complete flag [] := by
  have plain := flag.no_equals
  rw [longOption, List.takeWhile_eq_self_iff.mpr plain, List.dropWhile_eq_nil_iff.mpr plain,
    find?_long member]
  rfl

theorem longOption_joined (member : flag ∈ scope.flags) (takes : flag.takesValue = true)
    (s : State) (value : Bytes) :
    longOption scope s (Utf8.encode flag.long ++ equals :: value) = s.complete flag [value] := by
  have plain := flag.no_equals
  rw [longOption, List.takeWhile_append_of_pos plain, List.takeWhile_cons_of_neg (by decide),
    List.append_nil, List.dropWhile_append_of_pos plain, List.dropWhile_cons_of_neg (by decide),
    find?_long member]
  exact if_pos takes

variable {letter : UInt8}

theorem shortOptions_bare (named : flag.short? = some letter) (member : flag ∈ scope.flags)
    (takes : flag.takesValue = true) (s : State) :
    shortOptions scope s [letter] = s.collect flag := by
  rw [shortOptions, find?_short named member]
  exact if_pos takes

theorem shortOptions_equals (named : flag.short? = some letter) (member : flag ∈ scope.flags)
    (takes : flag.takesValue = true) (s : State) (value : Bytes) :
    shortOptions scope s (letter :: equals :: value) = s.complete flag [value] := by
  rw [shortOptions, find?_short named member]
  simp [takes]

theorem shortOptions_joined (named : flag.short? = some letter) (member : flag ∈ scope.flags)
    (takes : flag.takesValue = true) (s : State) {value : Bytes} (filled : value ≠ [])
    (apart : value.head? ≠ some equals) :
    shortOptions scope s (letter :: value) = s.complete flag [value] := by
  obtain ⟨first, rest, rfl⟩ := List.exists_cons_of_ne_nil filled
  have other : first ≠ equals := by simpa using apart
  rw [shortOptions, find?_short named member]
  simp [takes, other]

end

namespace State

/-- The options that the words read so far come to. -/
def Stands (s : State) (args : RunArgs) : Prop :=
  ∃ settled, s.settle = .ok settled ∧ settled.args = args ∧ settled.pending = none

/-- The words read so far end in an option and values for it. -/
structure Collects (s : State) (args : RunArgs) (flag : Flag) (values : List Bytes) : Prop where
  args : s.args = args
  pending : s.pending = some (flag, values)

variable {s : State} {before after : RunArgs} {flag : Flag} {values : List Bytes}

theorem stands_start : Stands {} {} := ⟨{}, rfl, rfl, rfl⟩

theorem Collects.stands (collects : s.Collects before flag values)
    (accepted : accept before flag values = .ok after) : s.Stands after := by
  refine ⟨{ s with args := after, pending := none, isOpen := false }, ?_, rfl, rfl⟩
  rw [settle, collects.pending, collects.args]
  simp only [accepted]
  rfl

theorem Stands.complete (stands : s.Stands before)
    (accepted : accept before flag values = .ok after) :
    ∃ next, s.complete flag values = .ok next ∧ next.Stands after := by
  obtain ⟨settled, settles, rfl, done⟩ := stands
  refine ⟨{ settled with args := after, sawOption := true }, ?_,
    ⟨{ settled with args := after, sawOption := true }, ?_, rfl, done⟩⟩
  · simp only [State.complete, settles, accepted, bind, Except.bind]
    rfl
  · simp only [settle, done]

theorem Stands.collect (stands : s.Stands before) (flag : Flag) :
    ∃ next, s.collect flag = .ok next ∧ next.Collects before flag [] ∧ next.isOpen = true := by
  obtain ⟨settled, settles, rfl, done⟩ := stands
  refine ⟨{ settled with pending := some (flag, []), isOpen := true, sawOption := true }, ?_,
    ⟨rfl, rfl⟩, rfl⟩
  rw [State.collect, settles]
  rfl

theorem Collects.addValue (collects : s.Collects before flag values) (value : Bytes) :
    (s.addValue value).Collects before flag (values ++ [value]) ∧
      (s.addValue value).isOpen = flag.isList := by
  rw [State.addValue, collects.pending]
  exact ⟨⟨collects.args, rfl⟩, rfl⟩

end State

section

variable {scope : Scope} {s next : State} {flag : Flag} {before after : RunArgs}

theorem readWords_end (scope : Scope) (stands : s.Stands after) :
    readWords scope s [] = .ok (.options after) := by
  obtain ⟨settled, settles, rfl, -⟩ := stands
  rw [readWords, settles]
  rfl

theorem command?_dashed (ready : scope.Ready) (word : Bytes) :
    scope.command? (dash :: word) = none := by
  rw [Scope.command?, List.find?_eq_none]
  intro name member named
  refine ready.commands name member ?_
  rw [eq_of_beq named]
  rfl

theorem readWords_long (ready : scope.Ready) {text : Bytes} (filled : text ≠ [])
    (reads : longOption scope s text = .ok next) (rest : List Bytes) :
    readWords scope s ((dash :: dash :: text) :: rest) = readWords scope next rest := by
  have isLong : Form.of (dash :: dash :: text) = .long text := by simp [Form.of, filled]
  simp only [readWords, command?_dashed ready, ite_self, isLong, reads]

theorem readWords_short (ready : scope.Ready) {letter : UInt8} {text : Bytes}
    (apart : letter ≠ dash) (reads : shortOptions scope s (letter :: text) = .ok next)
    (rest : List Bytes) :
    readWords scope s ((dash :: letter :: text) :: rest) = readWords scope next rest := by
  have isShort : Form.of (dash :: letter :: text) = .short (letter :: text) := by
    simp [Form.of, apart]
  simp only [readWords, command?_dashed ready, ite_self, isShort, reads]

/-- A word that is no option is a value of an option that takes more of them, even if it is the
    name of a command. -/
theorem readWords_value (isOpen : s.isOpen = true) {value : Bytes} (plain : IsValue value)
    (rest : List Bytes) :
    readWords scope s (value :: rest) = readWords scope (s.addValue value) rest := by
  have isPlain : Form.of value = .plain := by
    obtain ⟨first, text, rfl⟩ := List.exists_cons_of_ne_nil plain.filled
    have apart : first ≠ dash := by simpa using plain.undashed
    cases text <;> simp [Form.of, apart]
  simp only [readWords, isOpen, Bool.true_or, if_true, isPlain]

theorem readWords_values (list : flag.isList = true) {values : List Bytes}
    (plain : ∀ value ∈ values, IsValue value) {seen : List Bytes}
    (collects : s.Collects before flag seen) (isOpen : s.isOpen = true) :
    ∃ next, (∀ rest, readWords scope s (values ++ rest) = readWords scope next rest) ∧
      next.Collects before flag (seen ++ values) := by
  induction values generalizing s seen with
  | nil => exact ⟨s, fun rest => rfl, by simpa using collects⟩
  | cons value values ih =>
    rw [List.forall_mem_cons] at plain
    obtain ⟨collects', isOpen'⟩ := collects.addValue value
    obtain ⟨next, reads, collected⟩ := ih plain.2 collects' (isOpen'.trans list)
    refine ⟨next, ?_, by simpa using collected⟩
    intro rest
    rw [List.cons_append, readWords_value isOpen plain.1, reads]

variable {use : Use} {values : List Bytes}

theorem Use.Sound.flag_mem (sound : use.Sound) (ready : scope.Ready) :
    use.flag ∈ scope.flags := by
  refine ready.flags _ ?_
  cases sound with
  | switch kind => rcases kind with rfl | rfl <;> decide
  | path takes => exact Flag.mem_run takes
  | list list => exact Flag.mem_run (Flag.takesValue_of_isList list)

theorem Use.Sound.takes (sound : Use.Sound ⟨flag, values⟩) (filled : values ≠ []) :
    flag.takesValue = true := by
  cases sound with
  | switch => exact absurd rfl filled
  | path takes => exact takes
  | list list => exact Flag.takesValue_of_isList list

theorem Use.Sound.takes_short (sound : Use.Sound ⟨flag, values⟩) {letter : UInt8}
    (named : flag.short? = some letter) : flag.takesValue = true := by
  cases sound with
  | switch kind => rcases kind with rfl | rfl <;> cases named
  | path takes => exact takes
  | list list => exact Flag.takesValue_of_isList list

theorem Use.Sound.value (sound : Use.Sound ⟨flag, values⟩) :
    ∀ value ∈ values, IsValue value := by
  cases sound with
  | switch => simp
  | path takes single plain => simpa using plain
  | list list filled plain => exact plain

/-- The values of an option are read from the words behind it. -/
theorem collect_values (sound : Use.Sound ⟨flag, values⟩) (takes : flag.takesValue = true)
    (stands : s.Stands before) (accepted : accept before flag values = .ok after) :
    ∃ opened next, s.collect flag = .ok opened ∧
      (∀ rest, readWords scope opened (values ++ rest) = readWords scope next rest) ∧
      next.Stands after := by
  obtain ⟨opened, isCollect, collects, isOpen⟩ := stands.collect flag
  by_cases list : flag.isList = true
  · obtain ⟨next, reads, collected⟩ := readWords_values list sound.value collects isOpen
    exact ⟨opened, next, isCollect, reads, collected.stands accepted⟩
  · cases sound with
    | switch kind => rcases kind with rfl | rfl <;> cases takes
    | @path flag value _ single plain =>
      refine ⟨opened, opened.addValue value, isCollect, ?_, ?_⟩
      · exact readWords_value isOpen plain
      · exact (collects.addValue value).1.stands accepted
    | list isList => exact absurd isList list

/-- What the words of one occurrence do, whatever words follow. -/
theorem readWords_use (ready : scope.Ready) {words : List Bytes} (sound : use.Sound)
    (written : use.Written words) (stands : s.Stands before)
    (accepted : accept before use.flag use.values = .ok after) :
    ∃ next, (∀ rest, readWords scope s (words ++ rest) = readWords scope next rest) ∧
      next.Stands after := by
  have member := sound.flag_mem ready
  cases written with
  | long flag values =>
    have filled := flag.encode_long_ne_nil
    by_cases takes : flag.takesValue = true
    · obtain ⟨opened, next, isCollect, reads, stands'⟩ :=
        collect_values sound takes stands accepted
      refine ⟨next, fun rest => ?_, stands'⟩
      have opens : longOption scope s (Utf8.encode flag.long) = .ok opened := by
        rw [longOption_bare member, if_pos takes, isCollect]
      rw [List.cons_append, readWords_long ready filled opens, reads]
    · have none : values = [] := by
        by_contra given
        exact takes (sound.takes given)
      subst none
      obtain ⟨next, completes, stands'⟩ := stands.complete accepted
      refine ⟨next, fun rest => ?_, stands'⟩
      refine readWords_long ready filled ?_ rest
      rw [longOption_bare member, if_neg takes, completes]
  | longJoined flag value =>
    obtain ⟨next, completes, stands'⟩ := stands.complete accepted
    refine ⟨next, fun rest => ?_, stands'⟩
    refine readWords_long ready (by simp) ?_ rest
    rw [longOption_joined member (sound.takes (by simp)), completes]
  | @short flag letter named values =>
    have takes := sound.takes_short named
    obtain ⟨opened, next, isCollect, reads, stands'⟩ := collect_values sound takes stands accepted
    refine ⟨next, fun rest => ?_, stands'⟩
    have opens : shortOptions scope s [letter] = .ok opened := by
      rw [shortOptions_bare named member takes, isCollect]
    rw [List.cons_append, readWords_short ready (Flag.short?_ne_dash named) opens, reads]
  | shortEquals named value =>
    obtain ⟨next, completes, stands'⟩ := stands.complete accepted
    refine ⟨next, fun rest => ?_, stands'⟩
    refine readWords_short ready (Flag.short?_ne_dash named) ?_ rest
    rw [shortOptions_equals named member (sound.takes_short named), completes]
  | shortJoined named apart =>
    obtain ⟨next, completes, stands'⟩ := stands.complete accepted
    refine ⟨next, fun rest => ?_, stands'⟩
    refine readWords_short ready (Flag.short?_ne_dash named) ?_ rest
    have filled := (sound.value _ (List.mem_singleton_self _)).filled
    rw [shortOptions_joined named member (sound.takes_short named) s filled apart, completes]

theorem readWords_line (ready : scope.Ready) {uses : List Use} {words : List Bytes}
    (line : Line uses words) (sound : ∀ use ∈ uses, use.Sound) (stands : s.Stands before)
    (accepted : acceptAll before uses = .ok after) :
    readWords scope s words = .ok (.options after) := by
  induction line generalizing s before with
  | nil =>
    cases accepted
    exact readWords_end scope stands
  | @cons use uses words rest written later ih =>
    rw [List.forall_mem_cons] at sound
    rw [acceptAll, List.foldlM_cons] at accepted
    cases first : accept before use.flag use.values with
    | error stop =>
      rw [first] at accepted
      cases accepted
    | ok middle =>
      rw [first] at accepted
      obtain ⟨next, reads, stands'⟩ := readWords_use ready sound.1 written stands first
      rw [reads]
      exact ih sound.2 stands' accepted

end

theorem readWords_command {word : Bytes} {name : String} (named : scope.command? word = some name)
    (rest : List Bytes) : readWords scope {} (word :: rest) = .ok (.command name rest) := by
  simp only [readWords, Bool.or_self, Bool.false_eq_true, if_false, named]

theorem readOptions_line {args : RunArgs} (plain : args.Plain) {uses : List Use}
    (sets : Sets uses args) {words : List Bytes} (line : Line uses words) {scope : Scope}
    (ready : scope.Ready) : readWords scope {} words = .ok (.options args) :=
  readWords_line ready line (sets.sound plain) State.stands_start (sets.acceptAll plain)

/-- A line that is written for some options, in any order and any of the ways to write them, is read
    as these options: of the main command alone or behind its name, and of the linting command
    behind its name. Their values may be anything that is not empty and does not start with a dash,
    the names of commands included. -/
theorem line_reads_back {args : RunArgs} (plain : args.Plain) {uses : List Use}
    (sets : Sets uses args) {words : List Bytes} (line : Line uses words) :
    parseWords words = .ok (.formatAndLint args) ∧
    parseWords (Utf8.encode "format-and-lint" :: words) = .ok (.formatAndLint args) ∧
    parseWords (Utf8.encode "lint" :: words) = .ok (.lint args) := by
  have top := readOptions_line plain sets line topScope_ready
  have below : readOptions commandScope words = .ok args := by
    rw [readOptions, readOptions_line plain sets line commandScope_ready]
    rfl
  refine ⟨?_, ?_, ?_⟩
  · rw [parseWords, top]
    rfl
  · have named : topScope.command? (Utf8.encode "format-and-lint") = some "format-and-lint" := by
      decide
    rw [parseWords, readWords_command named]
    change (do return Command.formatAndLint (← readOptions commandScope words)) = _
    rw [below]
    rfl
  · have named : topScope.command? (Utf8.encode "lint") = some "lint" := by decide
    rw [parseWords, readWords_command named]
    change (do return Command.lint (← readOptions commandScope words)) = _
    rw [below]
    rfl

/-- Options with the names of commands as values, and with a path that is not text. -/
def crossArgs : RunArgs where
  files := ["lint", "a b", "help"]
  root := some (Path.ofString "version")
  noStandardIgnores := true
  outputDir := some ⟨[0x6F, 0xFF]⟩

def crossUses : List Use := [
  ⟨.files, [Utf8.encode "lint", Utf8.encode "a b"]⟩,
  ⟨.outputDir, [[0x6F, 0xFF]]⟩,
  ⟨.noStandardIgnores, []⟩,
  ⟨.files, [Utf8.encode "help"]⟩,
  ⟨.root, [Utf8.encode "version"]⟩]

def crossWords : List Bytes :=
  [Utf8.encode "--files", Utf8.encode "lint", Utf8.encode "a b", [0x2D, 0x6F, 0x6F, 0xFF],
    Utf8.encode "--no-standard-ignores", Utf8.encode "--files=help", Utf8.encode "--root",
    Utf8.encode "version"]

theorem line_reads_back_sample :
    crossArgs.Plain ∧ Sets crossUses crossArgs ∧ Line crossUses crossWords ∧
    parseWords crossWords = .ok (.formatAndLint crossArgs) ∧
    parseWords (Utf8.encode "lint" :: crossWords) = .ok (.lint crossArgs) := by
  have plain : crossArgs.Plain := by
    intro flag
    cases flag <;> decide
  have sets : Sets crossUses crossArgs := by
    refine ⟨?_, by decide, ?_⟩
    · intro flag single
      cases flag <;> cases single <;> decide
    · intro flag list
      cases flag <;> cases list <;> decide
  have line : Line crossUses crossWords :=
    .cons (.long .files _) (.cons (.shortJoined rfl (by decide)) (.cons (.long _ [])
      (.cons (.longJoined .files _) (.cons (.long .root _) .nil))))
  obtain ⟨alone, -, lint⟩ := line_reads_back plain sets line
  exact ⟨plain, sets, line, alone, lint⟩

end FormatLint.Args
