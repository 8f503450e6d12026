import FormatLint.Proofs.FileSystem.Absolute
import FormatLint.Proofs.Glob.Extension
import FormatLint.Proofs.Selection.Pruning
import FormatLint.Proofs.Text.Lines
import FormatLint.Selection.Select
import Mathlib

/-!
What is selected without patterns. An index file in the root makes every source file count, and a
directory `src` those below it. Whether they are there is asked of their paths, so that anything of
these names counts, be it a file, a directory or a link that leads somewhere
(`select_by_layout`).
-/

namespace FormatLint.Selection

section Patterns

variable {fs : FileSystem} {o : Options}

/-- A line of a pattern file that is blank or a comment. -/
def IsIdle (line : List Char) : Prop :=
  ∀ c, line.find? (fun c => !Text.isBlank c) = some c → c = '#'

theorem isPattern_idle {line : List Char} (idle : IsIdle line) :
    isPattern (Text.trim line) = false := by
  have first : line.find? (fun c => !Text.isBlank c) = (Text.trimStart line).head? := by
    rw [List.find?_eq_head?_dropWhile_not]
    simp [Text.trimStart]
  rw [Text.trim]
  cases shape : Text.trimStart line with
  | nil => rfl
  | cons c rest =>
    rw [shape, List.head?_cons] at first
    have comment := idle c first
    subst comment
    rw [Text.trimEnd_cons (by decide)]
    rfl

/-- Pattern files that can be read and hold nothing but idle lines. -/
def IdleFiles (fs : FileSystem) (files : List Path) : Prop :=
  ∀ p ∈ files, ∃ text, fs.readText p = .ok text ∧
    ∀ line ∈ Text.splitOn isBreak text.toList, IsIdle line

theorem extractPatterns_idle {text : String}
    (idle : ∀ line ∈ Text.splitOn isBreak text.toList, IsIdle line) :
    extractPatterns text = [] := by
  rw [extractPatterns, List.map_eq_nil_iff, List.filter_eq_nil_iff]
  intro line member
  obtain ⟨whole, inside, rfl⟩ := List.mem_map.mp member
  simp [isPattern_idle (idle whole inside)]

theorem gatherPatterns_idle {files : List Path} (idle : IdleFiles fs files) :
    gatherPatterns fs [] files = .ok [] := by
  have none : ∃ lists, files.mapM (readPatterns fs) = .ok lists ∧ lists.flatten = [] := by
    induction files with
    | nil => exact ⟨[], rfl, rfl⟩
    | cons p files ih =>
      rw [IdleFiles, List.forall_mem_cons] at idle
      obtain ⟨⟨text, read, lines⟩, rest⟩ := idle
      obtain ⟨lists, gathered, empty⟩ := ih rest
      refine ⟨[] :: lists, ?_, by simpa using empty⟩
      simp [List.mapM_cons, readPatterns, read, extractPatterns_idle lines, gathered, bind,
        Except.bind, pure, Except.pure]
  obtain ⟨lists, gathered, empty⟩ := none
  simp [gatherPatterns, gathered, empty, bind, Except.bind, pure, Except.pure]

/-- No pattern comes from anywhere, so that the layout of the root decides. -/
structure Unpatterned (fs : FileSystem) (o : Options) : Prop where
  files : o.files = []
  filesPaths : IdleFiles fs o.filesPaths
  ignoreFiles : o.ignoreFiles = []
  ignoreFilesPaths : IdleFiles fs o.ignoreFilesPaths
  noStandardIgnores : o.noStandardIgnores = true
  ignorePackageSettings : o.ignorePackageSettings = true

theorem select_unpatterned (unpatterned : Unpatterned fs o) (sink : Sink) :
    select fs o sink =
      match defaultIncludes fs o.root with
      | .error e => (.error e, sink)
      | .ok includes => (search fs { root := o.root, includes }, sink) := by
  have given : includePatterns fs o = defaultIncludes fs o.root := by
    rw [includePatterns, unpatterned.files, gatherPatterns_idle unpatterned.filesPaths]
    rfl
  have excluded : excludePatterns fs o sink = (.ok [], sink) := by
    simp [excludePatterns, unpatterned.ignoreFiles,
      gatherPatterns_idle unpatterned.ignoreFilesPaths, standardExcludes,
      unpatterned.noStandardIgnores, manifestExcludes, unpatterned.ignorePackageSettings, Except.map]
  rw [select, given]
  cases defaultIncludes fs o.root with
  | error e => rfl
  | ok includes => rw [excluded]

end Patterns

/-- What in a root makes source files count: an index file all of them, a directory `src` those
    below it. -/
structure Layout where
  index : Bool
  src : Bool

namespace Layout

/-- The layout by the nodes in the root. -/
def ofTree (top : Node) : Layout where
  index := indexFiles.any fun name => (top.get? [Utf8.encode name]).any Node.isFile
  src := (top.get? [Utf8.encode "src"]).any Node.isDir

/-- The layout by the paths that lead to anything. -/
def ofPaths (fs : FileSystem) (root : Path) : Layout where
  index := indexFiles.any fun name => fs.exists (root.joinText name)
  src := fs.exists (root.joinText "src")

end Layout

def isBelowSrc (place : Place) : Bool :=
  place.head? == some (Utf8.encode "src") && decide (1 < place.length)

/-- The selected ones of the source files, by the layout. -/
def Layout.answer (layout : Layout) (root : Path) (sources : List Place) :
    Except Error (List Path) :=
  if layout.index then .ok (sources.map (pathBelow root))
  else if layout.src then .ok ((sources.filter isBelowSrc).map (pathBelow root))
  else .error Error.noLayout

section Sources

variable {top : Node} {place : Place}

def hasSourceName (place : Place) : Bool :=
  sourceExtensions.any fun e => (Utf8.encode e).isSuffixOf (place.getLast?.getD [])

/-- The places of the source files in the order of the listing. -/
def sourcePlaces (top : Node) : List Place :=
  ((top.contents fun _ => false).filter fun item =>
    item.node.isFile && hasSourceName item.place).map (·.place)

theorem hasSourceName_iff : hasSourceName place = true ↔
    ∃ front name, place = front ++ [name] ∧
      ∃ e ∈ [".js", ".cjs", ".mjs", ".jsx"], Utf8.encode e <:+ name := by
  have listed : sourceExtensions = [".js", ".cjs", ".mjs", ".jsx"] := rfl
  rw [hasSourceName, listed, List.any_eq_true]
  simp only [List.isSuffixOf_iff_suffix]
  rcases List.eq_nil_or_concat place with rfl | ⟨front, name, rfl⟩
  · constructor
    · intro source
      exact absurd source (by decide)
    · rintro ⟨front, name, shape, -⟩
      simp at shape
  · rw [List.concat_eq_append, List.getLast?_concat, Option.getD_some]
    constructor
    · intro source
      exact ⟨front, name, rfl, source⟩
    · rintro ⟨front', name', shape, source⟩
      obtain ⟨-, same⟩ := List.append_inj' shape rfl
      cases same
      exact source

theorem mem_sourcePlaces (named : top.WellNamed) (directory : top.isDir = true) :
    place ∈ sourcePlaces top ↔
      (∃ data, top.get? place = some (.file data)) ∧ hasSourceName place = true := by
  rw [sourcePlaces, List.mem_map]
  constructor
  · rintro ⟨item, member, rfl⟩
    obtain ⟨inside, wanted⟩ := List.mem_filter.mp member
    obtain ⟨-, held⟩ := (Node.mem_contents named item).mp inside
    rw [Bool.and_eq_true] at wanted
    refine ⟨?_, wanted.2⟩
    cases node : item.node with
    | file data => exact ⟨data, node ▸ held⟩
    | dir entries => simp [node, Node.isFile] at wanted
    | link target => simp [node, Node.isFile] at wanted
  · rintro ⟨⟨data, held⟩, source⟩
    have placed : place ≠ [] := by
      rintro rfl
      cases held
      cases directory
    exact ⟨⟨place, .file data⟩, List.mem_filter.mpr
      ⟨(Node.mem_contents named _).mpr ⟨placed, held⟩, by simp [Node.isFile, source]⟩, rfl⟩

theorem sourcePlaces_pairwise (named : top.WellNamed) :
    (sourcePlaces top).Pairwise top.Precedes := by
  rw [sourcePlaces, List.pairwise_map]
  exact (Node.contents_pairwise named).filter _

theorem sourcePlaces_nodup (named : top.WellNamed) (root : Path) :
    ((sourcePlaces top).map (pathBelow root)).Nodup := by
  rw [sourcePlaces, List.map_map, List.Nodup, List.pairwise_map]
  refine ((Node.contents_pairwise named).filter _).imp_of_mem ?_
  intro x y memberX memberY before same
  obtain ⟨placedX, foundX⟩ := (Node.mem_contents named x).mp (List.mem_of_mem_filter memberX)
  obtain ⟨placedY, foundY⟩ := (Node.mem_contents named y).mp (List.mem_of_mem_filter memberY)
  have equal := pathBelow_injective root placedX placedY (named.proper _ _ foundX)
    (named.proper _ _ foundY) same
  exact Node.Precedes.irrefl (equal ▸ before)

theorem lastPart_unsplit (placed : place ≠ []) (plain : ∀ name ∈ place, Path.slash ∉ name) :
    (⟨Path.unsplit place⟩ : Path).lastPart = place.getLast?.getD [] := by
  rw [Path.lastPart, Path.split_unsplit placed plain]

theorem sourceExtensions_proper : ∀ e ∈ sourceExtensions, Glob.IsExtension e := by
  have listed : sourceExtensions = [".js", ".cjs", ".mjs", ".jsx"] := rfl
  rw [listed]
  simp only [List.forall_mem_cons, List.not_mem_nil, false_implies, implies_true, and_true]
  refine ⟨?_, ?_, ?_, ?_⟩ <;> exact ⟨by simp, by simp⟩

theorem hasSourceName_eq (placed : place ≠ []) (plain : ∀ name ∈ place, Path.slash ∉ name) :
    hasSourceName place = true ↔
      ∃ e ∈ sourceExtensions, Utf8.encode e <:+ (⟨Path.unsplit place⟩ : Path).lastPart := by
  rw [lastPart_unsplit placed plain, hasSourceName, List.any_eq_true]
  simp only [List.isSuffixOf_iff_suffix]

end Sources

section Search

variable {fs : FileSystem} {o : Options} {p root : Path} {here : Place} {top : Node}

/-- A search by one glob, in terms of the places that the glob is there to match. -/
theorem search_single {text : String} {glob : Glob} (wanted : Place → Bool)
    (located : Path.absolute? fs.cwd p = some root) (found : fs.stat root = .ok (here, top))
    (named : top.WellNamed) (utf8 : top.EveryName fun name => (Utf8.decode? name).isSome = true)
    (read : Glob.parse text = .ok glob)
    (matched : ∀ place : Place, place ≠ [] → (∀ name ∈ place, Path.slash ∉ name) →
      (glob.accepts (Path.unsplit place) = true ↔ wanted place = true)) :
    search fs { root := p, includes := [text] } =
      .ok ((((top.contents fun _ => false).filter fun item =>
        item.node.isFile && wanted item.place).map (·.place)).map (pathBelow root)) := by
  let m : Matcher := ⟨[glob], [], [], true⟩
  have matcher : Matcher.ofQuery { root := p, includes := [text] } = .ok m :=
    ofQuery_iff.mpr ⟨Glob.compile_cons.mpr ⟨glob, [], read, rfl, rfl⟩, rfl, rfl, rfl⟩
  have answer : search fs { root := p, includes := [text] } = _ :=
    searchWith_eq matcher located found
  have same : (top.contents m.prunes).filter m.selects =
      (top.contents fun _ => false).filter fun item => item.node.isFile && wanted item.place := by
    apply List.filter_congr
    intro item member
    obtain ⟨placed, held⟩ := (Node.mem_contents named item).mp member
    have plain : ∀ name ∈ item.place, Path.slash ∉ name := fun name inside =>
      (named.proper _ _ held name inside).2
    have accepted : glob.accepts (Path.unsplit item.place) = wanted item.place :=
      Bool.eq_iff_iff.mpr (matched item.place placed plain)
    simp [Matcher.selects, m, Glob.anyAccepts, accepted, relativeText_eq_unsplit (utf8 _ _ held)]
  rw [answer, same, List.map_map]
  rfl

theorem search_anywhere (located : Path.absolute? fs.cwd p = some root)
    (found : fs.stat root = .ok (here, top)) (named : top.WellNamed)
    (utf8 : top.EveryName fun name => (Utf8.decode? name).isSome = true) :
    search fs { root := p, includes := ["**/*" ++ extensionGroup sourceExtensions] } =
      .ok ((sourcePlaces top).map (pathBelow root)) := by
  refine search_single hasSourceName located found named utf8
    (Glob.parse_anywhere (by decide) sourceExtensions_proper) fun place placed plain => ?_
  rw [hasSourceName_eq placed plain]
  exact Glob.accepts_extension_iff (by decide) sourceExtensions_proper ⟨Path.unsplit place⟩

theorem search_below (located : Path.absolute? fs.cwd p = some root)
    (found : fs.stat root = .ok (here, top)) (named : top.WellNamed)
    (utf8 : top.EveryName fun name => (Utf8.decode? name).isSome = true) :
    search fs { root := p, includes := ["src/**/*" ++ extensionGroup sourceExtensions] } =
      .ok (((sourcePlaces top).filter isBelowSrc).map (pathBelow root)) := by
  have answer := search_single (fun place => hasSourceName place && isBelowSrc place)
    located found named utf8
    (Glob.parse_below (by decide) sourceExtensions_proper "src" (by simp [Glob.isSpecial]))
    fun place placed plain => by
      have accepted := Glob.accepts_extension_below_iff (by decide) sourceExtensions_proper "src"
        (by decide) ⟨Path.unsplit place⟩
      rw [← hasSourceName_eq placed plain, Path.split_unsplit placed plain] at accepted
      rw [accepted, Bool.and_eq_true, isBelowSrc]
      simp [and_comm]
  rw [sourcePlaces, List.filter_map, List.filter_filter]
  simpa [Function.comp_def, Bool.and_comm, Bool.and_left_comm, Bool.and_assoc] using answer

/-- The paths of the root decide, whatever they lead to. -/
theorem select_ofPaths (unpatterned : Unpatterned fs o) (sink : Sink)
    (located : Path.absolute? fs.cwd o.root = some root) (found : fs.stat root = .ok (here, top))
    (named : top.WellNamed) (utf8 : top.EveryName fun name => (Utf8.decode? name).isSome = true) :
    select fs o sink = ((Layout.ofPaths fs o.root).answer root (sourcePlaces top), sink) := by
  rw [select_unpatterned unpatterned, defaultIncludes, Layout.answer, Layout.ofPaths]
  by_cases index : indexFiles.any (fun name => fs.exists (o.root.joinText name)) = true
  · simp only [index, if_true]
    rw [search_anywhere located found named utf8]
  · by_cases src : fs.exists (o.root.joinText "src") = true
    · simp only [index, src, if_true, if_false, Bool.false_eq_true]
      rw [search_below located found named utf8]
    · simp only [index, src, if_false, Bool.false_eq_true]

end Search

section Probes

variable {fs : FileSystem} {p root : Path} {here : Place} {top : Node}

/-- A short name without zeros after a path that leads to a directory. -/
theorem refusal?_join {name : Bytes} (isName : Path.IsName name) (noNul : (0 : UInt8) ∉ name)
    (passed : FileSystem.refusal? p = none)
    (short : p.bytes.length + 1 + name.length ≤ pathLimit) :
    FileSystem.refusal? (p.join ⟨name⟩) = none := by
  obtain ⟨clear, filled, -⟩ := FileSystem.refusal?_eq_none.mp passed
  have named : (⟨name⟩ : Path).isEmpty = false := by simp [Path.isEmpty, isName.filled]
  have ahead : (0 : UInt8) ∉ Path.lead p ∧ (Path.lead p).length ≤ p.bytes.length + 1 := by
    rw [Path.lead]
    split
    · exact ⟨clear, by omega⟩
    · simp [clear, Path.slash]
  rw [FileSystem.refusal?_eq_none, p.join_relative isName.isPart.relative, List.mem_append,
    List.length_append]
  have longer : (Path.lead p).length + name.length ≤ pathLimit := by omega
  exact ⟨by simp [ahead.1, noNul], Path.join_filled p named, longer⟩

/-- A name of the root that is no link is there as a path exactly if the root holds it. -/
theorem exists_joinText (anchored : fs.cwd.isAbsolute = true)
    (located : Path.absolute? fs.cwd p = some root) (found : fs.stat root = .ok (here, top))
    (directory : top.isDir = true) (short : p.bytes.length + 10 ≤ pathLimit) {name : String}
    (isName : Path.IsName (Utf8.encode name)) (noNul : (0 : UInt8) ∉ Utf8.encode name)
    (fits : (Utf8.encode name).length ≤ 9)
    (direct : ∀ target, top.get? [Utf8.encode name] ≠ some (.link target)) :
    fs.exists (p.joinText name) = (top.get? [Utf8.encode name]).isSome := by
  obtain ⟨entries, rfl⟩ : ∃ entries, top = .dir entries := by
    cases top <;> simp [Node.isDir] at directory ⊢
  have held : Node.get? [Utf8.encode name] (.dir entries) = entries.lookup (Utf8.encode name) := by
    rw [Node.get?_cons_dir]
    cases entries.lookup (Utf8.encode name) <;> simp
  rw [held] at direct ⊢
  have leads := FileSystem.resolve_of_absolute? anchored located (by omega)
    (FileSystem.stat_iff.mp found)
  have passed := refusal?_join isName noNul (FileSystem.resolve_ok leads).1 (by omega)
  exact Bool.eq_iff_iff.mpr
    (FileSystem.exists_join_iff isName (by rw [nameLimit]; omega) passed leads direct)

/-- Whatever has a name of the layout is of the kind that is looked for. -/
structure Conforms (top : Node) : Prop where
  index : ∀ name ∈ indexFiles, ∀ node, top.get? [Utf8.encode name] = some node →
    node.isFile = true
  src : ∀ node, top.get? [Utf8.encode "src"] = some node → node.isDir = true

theorem any_eq_isSome {found : Option Node} {kind : Node → Bool}
    (all : ∀ node, found = some node → kind node = true) : found.any kind = found.isSome := by
  cases found with
  | none => rfl
  | some node => exact all node rfl

/-- Then the paths tell the same as the tree. -/
theorem Conforms.ofPaths_eq (conforms : Conforms top) (anchored : fs.cwd.isAbsolute = true)
    (located : Path.absolute? fs.cwd p = some root) (found : fs.stat root = .ok (here, top))
    (directory : top.isDir = true) (short : p.bytes.length + 10 ≤ pathLimit) :
    Layout.ofPaths fs p = Layout.ofTree top := by
  have src : fs.exists (p.joinText "src") = (top.get? [Utf8.encode "src"]).any Node.isDir := by
    rw [any_eq_isSome conforms.src]
    refine exists_joinText anchored located found directory short
      ⟨by decide, by decide, by decide, by decide⟩ (by decide) (by decide) fun target held => ?_
    cases conforms.src _ held
  have index : ∀ name ∈ indexFiles,
      fs.exists (p.joinText name) = (top.get? [Utf8.encode name]).any Node.isFile := by
    intro name member
    have proper : Path.IsName (Utf8.encode name) ∧ (0 : UInt8) ∉ Utf8.encode name ∧
        (Utf8.encode name).length ≤ 9 := by
      simp only [indexFiles, List.mem_cons, List.not_mem_nil, or_false] at member
      rcases member with rfl | rfl | rfl <;>
        exact ⟨⟨by decide, by decide, by decide, by decide⟩, by decide, by decide⟩
    rw [any_eq_isSome (conforms.index name member)]
    refine exists_joinText anchored located found directory short proper.1 proper.2.1 proper.2.2
      fun target held => ?_
    cases conforms.index name member _ held
  rw [Layout.ofPaths, Layout.ofTree, src]
  congr 1
  rw [Bool.eq_iff_iff, List.any_eq_true, List.any_eq_true]
  exact exists_congr fun name => and_congr_right fun member => by rw [index name member]

/-- Two layouts make the same source files count if they say the same, and also if both make some
    count and there is none but below `src`. -/
theorem Layout.answer_eq_iff (layout other : Layout) (root : Path) (sources : List Place) :
    layout.answer root sources = other.answer root sources ↔
      layout.index = other.index ∧ (layout.index = true ∨ layout.src = other.src) ∨
      (layout.index || layout.src) = true ∧ (other.index || other.src) = true ∧
        ∀ place ∈ sources, isBelowSrc place = true := by
  have below : (sources.filter isBelowSrc).map (pathBelow root) = sources.map (pathBelow root) ↔
      ∀ place ∈ sources, isBelowSrc place = true := by
    constructor
    · intro same
      have length := congrArg List.length same
      rw [List.length_map, List.length_map] at length
      exact List.length_filter_eq_length_iff.mp length
    · intro all
      rw [List.filter_eq_self.mpr all]
  have below' : sources.map (pathBelow root) = (sources.filter isBelowSrc).map (pathBelow root) ↔
      ∀ place ∈ sources, isBelowSrc place = true := eq_comm.trans below
  obtain ⟨index, src⟩ := layout
  obtain ⟨index', src'⟩ := other
  cases index <;> cases src <;> cases index' <;> cases src' <;>
    simp only [Layout.answer, if_true, if_false, Bool.false_eq_true, Except.ok.injEq, reduceCtorEq,
      below, below', Bool.or_true, Bool.or_false, true_and, and_true, false_and, and_false, or_true,
      true_or, or_false, false_or, or_self, and_self, Bool.true_eq_false]

end Probes

/-- Without patterns the source files are selected, in the order of the listing: all of them if the
    root has an index file, or else those below a directory `src`. So it is for every root in which
    nothing else bears these names. In general it is so exactly if what the paths lead to, of
    whatever kind, makes the same source files count. -/
theorem select_by_layout (fs : FileSystem) (o : Options) (sink : Sink) (root : Path) (here : Place)
    (top : Node) (unpatterned : Unpatterned fs o) (anchored : fs.cwd.isAbsolute = true)
    (located : Path.absolute? fs.cwd o.root = some root) (found : fs.stat root = .ok (here, top))
    (directory : top.isDir = true) (named : top.WellNamed)
    (utf8 : top.EveryName fun name => (Utf8.decode? name).isSome = true) :
    ∃ sources : List Place,
      (sources.map (pathBelow root)).Nodup ∧
      sources.Pairwise top.Precedes ∧
      (∀ place, place ∈ sources ↔
        (∃ data, top.get? place = some (.file data)) ∧
        ∃ front name, place = front ++ [name] ∧
          ∃ e ∈ [".js", ".cjs", ".mjs", ".jsx"], Utf8.encode e <:+ name) ∧
      (Conforms top → o.root.bytes.length + 10 ≤ pathLimit →
        select fs o sink = ((Layout.ofTree top).answer root sources, sink)) ∧
      let seen := Layout.ofPaths fs o.root
      let held := Layout.ofTree top
      (select fs o sink = (held.answer root sources, sink) ↔
        seen.index = held.index ∧ (seen.index = true ∨ seen.src = held.src) ∨
        (seen.index || seen.src) = true ∧ (held.index || held.src) = true ∧
          ∀ place ∈ sources, isBelowSrc place = true) := by
  have answer := select_ofPaths unpatterned sink located found named utf8
  refine ⟨sourcePlaces top, sourcePlaces_nodup named root, sourcePlaces_pairwise named, ?_, ?_, ?_⟩
  · intro place
    rw [mem_sourcePlaces named directory, hasSourceName_iff]
  · intro conforms short
    rw [answer, conforms.ofPaths_eq anchored located found directory short]
  · intro seen held
    rw [answer, Prod.mk.injEq, and_iff_left rfl, Layout.answer_eq_iff]

/-- Sources in `src` and beside it, and a pattern file without patterns. -/
def sourceTree : Node :=
  .dir [
    (Utf8.encode "src", .dir [
      (Utf8.encode "a.js", .file { content := .empty }),
      (Utf8.encode "b", .file { content := .empty })]),
    (Utf8.encode "c.js", .file { content := .empty }),
    (Utf8.encode "list", .file { content := "# none\n".toUTF8 })]

theorem sourceTree_names {p : Bytes → Prop} (src : p (Utf8.encode "src"))
    (a : p (Utf8.encode "a.js")) (b : p (Utf8.encode "b")) (c : p (Utf8.encode "c.js"))
    (list : p (Utf8.encode "list")) : sourceTree.EveryName p := by
  refine .dir ?_
  simp only [List.forall_mem_cons, List.not_mem_nil, false_implies, implies_true, and_true]
  refine ⟨⟨src, .dir ?_⟩, ⟨c, .file _ _⟩, ⟨list, .file _ _⟩⟩
  simp only [List.forall_mem_cons, List.not_mem_nil, false_implies, implies_true, and_true]
  exact ⟨⟨a, .file _ _⟩, ⟨b, .file _ _⟩⟩

theorem sourceTree_wellNamed : sourceTree.WellNamed := by
  refine .dir (by decide) ?_
  simp only [List.forall_mem_cons, List.not_mem_nil, false_implies, implies_true, and_true]
  refine ⟨⟨by decide, .dir (by decide) ?_⟩, ⟨by decide, .file _⟩, ⟨by decide, .file _⟩⟩
  simp only [List.forall_mem_cons, List.not_mem_nil, false_implies, implies_true, and_true]
  exact ⟨⟨by decide, .file _⟩, ⟨by decide, .file _⟩⟩

theorem sourceTree_conforms : Conforms sourceTree := by
  refine ⟨fun name member node held => ?_, fun node held => ?_⟩
  · have none : sourceTree.get? [Utf8.encode name] = none := by
      simp only [indexFiles, List.mem_cons, List.not_mem_nil, or_false] at member
      rcases member with rfl | rfl | rfl <;> rfl
    rw [none] at held
    cases held
  · cases held
    rfl

theorem select_by_layout_sample :
    let o : Options := {
      root := ⟨[0x2F]⟩, filesPaths := [Path.ofString "list"]
      noStandardIgnores := true, ignorePackageSettings := true }
    ∃ places : List Place,
      select ⟨sourceTree, ⟨[0x2F]⟩⟩ o {} = (.ok (places.map (pathBelow ⟨[0x2F]⟩)), {}) ∧
      [Utf8.encode "src", Utf8.encode "a.js"] ∈ places ∧ [Utf8.encode "c.js"] ∉ places := by
  intro o
  have found : FileSystem.stat ⟨sourceTree, ⟨[0x2F]⟩⟩ ⟨[0x2F]⟩ = .ok ([], sourceTree) := by cbv
  have list : FileSystem.readText ⟨sourceTree, ⟨[0x2F]⟩⟩ (Path.ofString "list") =
      .ok "# none\n" := by
    have bytes : FileSystem.readBytes ⟨sourceTree, ⟨[0x2F]⟩⟩ (Path.ofString "list") =
        .ok "# none\n".toUTF8 := by cbv
    rw [FileSystem.readText, bytes]
    simp only [bind, Except.bind, Utf8.read?_toUTF8]
    rfl
  have idle : IdleFiles ⟨sourceTree, ⟨[0x2F]⟩⟩ [Path.ofString "list"] := by
    intro p member
    obtain rfl := List.mem_singleton.mp member
    refine ⟨_, list, ?_⟩
    have lines : Text.splitOn isBreak "# none\n".toList = ["# none".toList, []] := by decide
    rw [lines]
    simp only [List.forall_mem_cons, List.not_mem_nil, false_implies, implies_true, and_true]
    refine ⟨fun c first => ?_, fun c first => ?_⟩
    · cases first
      rfl
    · cases first
  have nothing : IdleFiles ⟨sourceTree, ⟨[0x2F]⟩⟩ [] := fun p member => by cases member
  have utf8 (name : String) : (Utf8.decode? (Utf8.encode name)).isSome = true := by
    rw [Utf8.decode?_encode, Option.isSome_some]
  obtain ⟨sources, -, -, holds, answer, -⟩ := select_by_layout ⟨sourceTree, ⟨[0x2F]⟩⟩ o {}
    ⟨[0x2F]⟩ [] sourceTree ⟨rfl, idle, rfl, nothing, rfl, rfl⟩ rfl (by decide) found rfl
    sourceTree_wellNamed (sourceTree_names (utf8 _) (utf8 _) (utf8 _) (utf8 _) (utf8 _))
  refine ⟨sources.filter isBelowSrc, answer sourceTree_conforms (by decide), ?_, ?_⟩
  · refine List.mem_filter.mpr ⟨(holds _).mpr ⟨⟨_, rfl⟩, ?_⟩, by decide⟩
    exact ⟨[Utf8.encode "src"], Utf8.encode "a.js", rfl, ".js", by simp, by decide⟩
  · intro member
    exact absurd (List.mem_filter.mp member).2 (by decide)

/-- A root with nothing but a file `src` in it. -/
def fileNamedSrc : FileSystem where
  root := .dir [(Utf8.encode "src", .file { content := .empty })]
  cwd := ⟨[0x2F]⟩

/-- It has neither an index file nor a directory `src`, and still the selection does not fail. -/
theorem select_file_named_src :
    let o : Options := {
      root := ⟨[0x2F]⟩, noStandardIgnores := true, ignorePackageSettings := true }
    Unpatterned fileNamedSrc o ∧ Layout.ofTree fileNamedSrc.root = ⟨false, false⟩ ∧
    select fileNamedSrc o {} = (.ok [], {}) := by
  intro o
  have nothing : IdleFiles fileNamedSrc [] := fun p member => by cases member
  have unpatterned : Unpatterned fileNamedSrc o := ⟨rfl, nothing, rfl, nothing, rfl, rfl⟩
  have found : fileNamedSrc.stat ⟨[0x2F]⟩ = .ok ([], fileNamedSrc.root) := by cbv
  have named : fileNamedSrc.root.WellNamed :=
    .dir (by decide) (by simpa using ⟨⟨by decide, by decide⟩, .file _⟩)
  have utf8 : fileNamedSrc.root.EveryName fun name => (Utf8.decode? name).isSome = true :=
    .dir (by simpa [Utf8.decode?_encode] using .file _ _)
  have seen : Layout.ofPaths fileNamedSrc o.root = ⟨false, true⟩ := by
    rw [Layout.ofPaths]
    congr 1
    · cbv
    · cbv
  have none : sourcePlaces fileNamedSrc.root = [] := by cbv
  refine ⟨unpatterned, rfl, ?_⟩
  rw [select_ofPaths unpatterned {} (by decide) found named utf8, seen, none]
  rfl

end FormatLint.Selection
